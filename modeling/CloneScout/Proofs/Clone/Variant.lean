import CloneScout.Proofs.Clone.Layout
import CloneScout.Proofs.Flow.Variant

/-!
# Fingerprints of variants

Docstrings that are irrelevant do not show in fingerprints, at whatever depth a function has one.
Annotations that are irrelevant do not show in the normal form of a function either, but they can
show in its flow of control: where a function is defined in the body of a `try` statement, control
may go on to a handler if an annotation can raise an exception.
-/

set_option maxRecDepth 4000

namespace CloneScout

open Flow (canRaise guarded)
open Outline (plain)

namespace Variant

variable {v : Leeway} {cfg : Normal.Config}

/-- The relevant parts of the bodies of variants are variants. -/
theorem stmts_relevantBody (hv : v.Fits cfg) {s t : Stmt} (h : stmt v s t) :
    stmts v (relevantBody cfg s.functionBody) (relevantBody cfg t.functionBody) := by
  obtain ⟨rest, hbody, hdoc⟩ := exists_functionBody h
  rw [relevantBody, relevantBody]
  by_cases hcfg : cfg.ignoreDocstrings = true
  · rw [if_pos hcfg, if_pos hcfg]
    exact stmts_withoutDocstring hbody hdoc
  · rw [if_neg hcfg, if_neg hcfg]
    obtain hsame | ⟨hnew, -⟩ := hdoc
    · rw [hsame]
      exact hbody
    · exact absurd (hv.docstrings hnew) hcfg

theorem bodyText_relevantBody (hv : v.Fits cfg) {s t : Stmt} (h : stmt v s t) :
    Normal.bodyText cfg (relevantBody cfg t.functionBody) =
      Normal.bodyText cfg (relevantBody cfg s.functionBody) :=
  bodyText_eq hv (stmts_relevantBody hv h)

/-- Variants have the same fingerprints if the same statements in front of handlers can raise. -/
theorem fingerprints_eq (hv : v.Fits cfg) {s t : Stmt} (h : stmt v s t)
    (hraise : SameRaise (guarded (relevantBody cfg s.functionBody))
      (guarded (relevantBody cfg t.functionBody))) :
    flowFingerprint cfg t.functionBody = flowFingerprint cfg s.functionBody ∧
      unitFingerprint cfg t.functionBody = unitFingerprint cfg s.functionBody := by
  have htext := text_ofBody hv (stmts_relevantBody hv h) hraise
  have hflow : flowFingerprint cfg t.functionBody = flowFingerprint cfg s.functionBody :=
    congrArg Sha1.hex htext.symm
  refine ⟨hflow, ?_⟩
  rw [unitFingerprint, unitFingerprint, bodyText_relevantBody hv h, hflow]

end Variant

/-! ## Functions of sources -/

theorem guarded_relevantBody (cfg : Normal.Config) (body : List Stmt) :
    guarded (relevantBody cfg body) = guarded body := by
  rw [relevantBody]
  split
  · exact Flow.guarded_withoutDocstring body
  · rfl

section

variable (cfg : Normal.Config) {f : Stmt} (h : Every.stmt Node.Lawful f)

include h

theorem bodyText_plain :
    Normal.bodyText cfg (relevantBody cfg (plain.stmt f).functionBody) =
      Normal.bodyText cfg (relevantBody cfg f.functionBody) := by
  have hfits := Outline.fits_plain cfg
  rw [Outline.functionBody_stmt, Outline.relevantBody_stmts hfits,
    Outline.bodyText_stmts hfits (Outline.lawful_relevantBody (Every.functionBody h))]

theorem flowFingerprint_plain :
    flowFingerprint cfg (plain.stmt f).functionBody = flowFingerprint cfg f.functionBody := by
  rw [Outline.functionBody_stmt]
  exact Outline.flowFingerprint_stmts (Outline.fits_plain cfg) (Outline.silent_plain .shown)
    (Every.functionBody h)

theorem unitFingerprint_plain :
    unitFingerprint cfg (plain.stmt f).functionBody = unitFingerprint cfg f.functionBody := by
  rw [Outline.functionBody_stmt]
  exact Outline.unitFingerprint_stmts (Outline.fits_plain cfg) (Outline.silent_plain .shown)
    (Every.functionBody h)

end

theorem canRaise_guarded_plain (f : Stmt) :
    (guarded (plain.stmt f).functionBody).map canRaise = (guarded f.functionBody).map canRaise := by
  rw [Outline.functionBody_stmt, Outline.canRaise_guarded (Outline.silent_plain .shown)]

/-- The only statement of a module, found by its outline. -/
theorem exists_only_stmt {m : Module} {s : Stmt} (h : m.body.map plain.stmt = [s]) :
    ∃ f, m.body = [f] ∧ plain.stmt f = s ∧ ⟨1, .stmt f⟩ ∈ Walk.module m := by
  obtain ⟨f, hbody, hf⟩ := List.map_eq_singleton_iff.mp h
  refine ⟨f, hbody, hf, ?_⟩
  rw [Walk.module, hbody, Walk.stmts]
  cases f <;> simp [Walk.stmt]

/-! ## Docstrings -/

/-- Two functions of faultless sources are alike but for extents, except that some of those without
a docstring, among the first function and the functions in it, get one. Then both have the same
fingerprints where docstrings are irrelevant. -/
theorem fingerprints_eq_of_docstrings {cfg : Normal.Config} (hcfg : cfg.ignoreDocstrings = true)
    {source source' : Text} {maxErrors maxErrors' : Nat} {d d' : Nat} {f f' : Stmt}
    (hok : (Parsed.ofSource source maxErrors).ok = true)
    (hok' : (Parsed.ofSource source' maxErrors').ok = true)
    (hf : ⟨d, .stmt f⟩ ∈ Walk.module (Parsed.ofSource source maxErrors).module)
    (hf' : ⟨d', .stmt f'⟩ ∈ Walk.module (Parsed.ofSource source' maxErrors').module)
    (h : Variant.stmt { docstrings := true } (plain.stmt f) (plain.stmt f')) :
    flowFingerprint cfg f'.functionBody = flowFingerprint cfg f.functionBody ∧
      unitFingerprint cfg f'.functionBody = unitFingerprint cfg f.functionBody := by
  have hlawful : Every.stmt Node.Lawful f :=
    Every.node_of_mem_walk (Parsed.lawful_module hok) hf
  have hlawful' : Every.stmt Node.Lawful f' :=
    Every.node_of_mem_walk (Parsed.lawful_module hok') hf'
  have hfits : Leeway.Fits { docstrings := true } cfg := ⟨nofun, fun _ => hcfg⟩
  -- a docstring raises nothing, so the statements in front of handlers agree as they are
  have hbody := Variant.stmts_relevantBody hfits h
  have hraise := Variant.SameRaise.of_forall₂ rfl (Variant.forall₂_guarded hbody)
  rw [← flowFingerprint_plain cfg hlawful, ← flowFingerprint_plain cfg hlawful',
    ← unitFingerprint_plain cfg hlawful, ← unitFingerprint_plain cfg hlawful']
  exact Variant.fingerprints_eq hfits h hraise

/-- The function in a function gets a docstring. -/
theorem fingerprints_documented :
    let m := (Parsed.ofSource (utf8 "def f():\n def g():0\n") 64).module
    let m' := (Parsed.ofSource (utf8 "def f():\n def g():'a';0\n") 64).module
    ∃ f f', m.body = [f] ∧ m'.body = [f'] ∧
      Variant.stmt { docstrings := true } (plain.stmt f) (plain.stmt f') ∧
      flowFingerprint {} f'.functionBody = flowFingerprint {} f.functionBody ∧
      unitFingerprint {} f'.functionBody = unitFingerprint {} f.functionBody := by
  intro m m'
  let doc : Stmt := .expr .blank (.constant .blank (.text (utf8 "a") false))
  let zero : Stmt := .expr .blank (.constant .blank (.int 0))
  let define (name : String) (body : List Stmt) : Stmt :=
    .function .blank false (utf8 name) .empty body [] none
  let s := define "f" [define "g" [zero]]
  let s' := define "f" [define "g" [doc, zero]]
  have hvariant : Variant.stmt { docstrings := true } s s' := by
    refine ⟨_, _, _, _, rfl, ⟨rfl, rfl⟩, ⟨_, _, rfl, ?_, rfl⟩, .inl rfl⟩
    refine ⟨_, [zero], _, _, rfl, ⟨rfl, rfl⟩, ⟨_, _, rfl, rfl, rfl⟩, ?_⟩
    exact .inr ⟨rfl, rfl, doc, rfl, rfl⟩
  obtain ⟨f, hbody, hf, hmem⟩ := exists_only_stmt (m := m) (s := s) rfl
  obtain ⟨f', hbody', hf', hmem'⟩ := exists_only_stmt (m := m') (s := s') rfl
  rw [← hf, ← hf'] at hvariant
  exact ⟨f, f', hbody, hbody', hvariant, fingerprints_eq_of_docstrings rfl (by decide +kernel)
    (by decide +kernel) hmem hmem' hvariant⟩

/-! ## Annotations -/

/-- Two functions of faultless sources are alike but for extents and the annotations of parameters
and results, of the functions themselves and of the functions in them. Where annotations are
irrelevant, their bodies have one normal text; their fingerprints are the same if the same of the
statements in front of handlers can raise an exception, those that define functions included. -/
theorem unitFingerprint_eq_of_hints {cfg : Normal.Config} (hcfg : cfg.ignoreHints = true)
    {source source' : Text} {maxErrors maxErrors' : Nat} {d d' : Nat} {f f' : Stmt}
    (hok : (Parsed.ofSource source maxErrors).ok = true)
    (hok' : (Parsed.ofSource source' maxErrors').ok = true)
    (hf : ⟨d, .stmt f⟩ ∈ Walk.module (Parsed.ofSource source maxErrors).module)
    (hf' : ⟨d', .stmt f'⟩ ∈ Walk.module (Parsed.ofSource source' maxErrors').module)
    (h : Variant.stmt { hints := true } (plain.stmt f) (plain.stmt f')) :
    Normal.bodyText cfg (relevantBody cfg f'.functionBody) =
        Normal.bodyText cfg (relevantBody cfg f.functionBody) ∧
      ((guarded f'.functionBody).map canRaise = (guarded f.functionBody).map canRaise →
        unitFingerprint cfg f'.functionBody = unitFingerprint cfg f.functionBody) := by
  have hlawful : Every.stmt Node.Lawful f :=
    Every.node_of_mem_walk (Parsed.lawful_module hok) hf
  have hlawful' : Every.stmt Node.Lawful f' :=
    Every.node_of_mem_walk (Parsed.lawful_module hok') hf'
  have hfits : Leeway.Fits { hints := true } cfg := ⟨fun _ => hcfg, nofun⟩
  constructor
  · rw [← bodyText_plain cfg hlawful, ← bodyText_plain cfg hlawful']
    exact Variant.bodyText_relevantBody hfits h
  · intro hraise
    rw [← unitFingerprint_plain cfg hlawful, ← unitFingerprint_plain cfg hlawful']
    refine (Variant.fingerprints_eq hfits h ?_).2
    rw [guarded_relevantBody, guarded_relevantBody, Variant.SameRaise, canRaise_guarded_plain,
      canRaise_guarded_plain]
    exact hraise

/-- The annotations of a function go, and those of the function in it change. -/
theorem unitFingerprint_other_hints :
    let m := (Parsed.ofSource (utf8 "def f(x:a.b):\n def g(y:c)->d:0\n") 64).module
    let m' := (Parsed.ofSource (utf8 "def f(x):\n def g(y:e.f):0\n") 64).module
    ∃ f f', m.body = [f] ∧ m'.body = [f'] ∧
      Variant.stmt { hints := true } (plain.stmt f) (plain.stmt f') ∧
      unitFingerprint {} f'.functionBody = unitFingerprint {} f.functionBody := by
  intro m m'
  let name (id : String) : Expr := .name .blank (utf8 id) .load
  let zero : Stmt := .expr .blank (.constant .blank (.int 0))
  let define (id param : String) (hint returns : Option Expr) (body : Stmt) : Stmt :=
    .function .blank false (utf8 id) (.mk [] [.mk (utf8 param) hint none] none [] none) [body] []
      returns
  let s := define "f" "x" (some (.attribute .blank (name "a") (utf8 "b") .load)) none
    (define "g" "y" (some (name "c")) (some (name "d")) zero)
  let s' := define "f" "x" none none
    (define "g" "y" (some (.attribute .blank (name "e") (utf8 "f") .load)) none zero)
  have hvariant : Variant.stmt { hints := true } s s' := by
    refine ⟨_, _, _, _, rfl, rfl, ⟨_, _, rfl, ?_, rfl⟩, .inl rfl⟩
    exact ⟨_, _, _, _, rfl, rfl, ⟨_, _, rfl, rfl, rfl⟩, .inl rfl⟩
  obtain ⟨f, hbody, hf, hmem⟩ := exists_only_stmt (m := m) (s := s) rfl
  obtain ⟨f', hbody', hf', hmem'⟩ := exists_only_stmt (m := m') (s := s') rfl
  rw [← hf, ← hf'] at hvariant
  refine ⟨f, f', hbody, hbody', hvariant, ?_⟩
  refine (unitFingerprint_eq_of_hints rfl (by decide +kernel) (by decide +kernel) hmem hmem'
    hvariant).2 ?_
  rw [← canRaise_guarded_plain f, ← canRaise_guarded_plain f', hf, hf']
  rfl

/-- A function that is defined in the body of a `try` statement loses an annotation with an
attribute, and with it the way to the handler. -/
theorem unitFingerprint_ne_of_hint :
    let p := Parsed.ofSource (utf8 "def f():\n try:\n  def g(x:a.b):0\n except:0\n") 64
    let p' := Parsed.ofSource (utf8 "def f():\n try:\n  def g(x):0\n except:0\n") 64
    p.ok = true ∧ p'.ok = true ∧
    ∃ f f', p.module.body = [f] ∧ p'.module.body = [f'] ∧
      Variant.stmt { hints := true } (plain.stmt f) (plain.stmt f') ∧
      unitFingerprint {} f'.functionBody ≠ unitFingerprint {} f.functionBody := by
  intro p p'
  let zero : Stmt := .expr .blank (.constant .blank (.int 0))
  let define (id : String) (ps : Params) (body : Stmt) : Stmt :=
    .function .blank false (utf8 id) ps [body] [] none
  let attempt (hint : Option Expr) : Stmt := .tryBlock .blank false
    [define "g" (.mk [] [.mk (utf8 "x") hint none] none [] none) zero]
    [.mk none none [zero]] [] []
  let s := define "f" .empty
    (attempt (some (.attribute .blank (.name .blank (utf8 "a") .load) (utf8 "b") .load)))
  let s' := define "f" .empty (attempt none)
  have hvariant : Variant.stmt { hints := true } s s' := by
    refine ⟨_, _, _, _, rfl, rfl, ⟨_, _, rfl, ⟨_, _, _, _, rfl, ⟨_, _, rfl, ?_, rfl⟩, ?_, rfl, rfl⟩,
      rfl⟩, .inl rfl⟩
    · exact ⟨_, _, _, _, rfl, rfl, ⟨_, _, rfl, rfl, rfl⟩, .inl rfl⟩
    · exact ⟨_, _, rfl, ⟨_, _, rfl, rfl, rfl⟩, rfl⟩
  have hok : p.ok = true := by decide +kernel
  have hok' : p'.ok = true := by decide +kernel
  obtain ⟨f, hbody, hf, hmem⟩ := exists_only_stmt (m := p.module) (s := s) rfl
  obtain ⟨f', hbody', hf', hmem'⟩ := exists_only_stmt (m := p'.module) (s := s') rfl
  refine ⟨hok, hok', f, f', hbody, hbody', by rw [hf, hf']; exact hvariant, ?_⟩
  rw [← unitFingerprint_plain {} (Every.node_of_mem_walk (Parsed.lawful_module hok) hmem),
    ← unitFingerprint_plain {} (Every.node_of_mem_walk (Parsed.lawful_module hok') hmem'), hf, hf']
  -- the digests one after the other, as the kernel keeps what it evaluates in one go
  have hflow : flowFingerprint {} s.functionBody =
      utf8 "88b898b102ffebb49a819734ec9f94d72d614892" := by decide +kernel
  have hflow' : flowFingerprint {} s'.functionBody =
      utf8 "7b09d0ad72d381f100dfa6afb01373bf9f249d5c" := by decide +kernel
  have hunit : unitFingerprint {} s.functionBody =
      utf8 "670d4c6ec4a3307c9302373716fbcba2dbeff7a1" := by
    rw [unitFingerprint, hflow]
    decide +kernel
  have hunit' : unitFingerprint {} s'.functionBody =
      utf8 "f124d291ce849b2cbb22d657f708318c9aad3892" := by
    rw [unitFingerprint, hflow']
    decide +kernel
  rw [hunit, hunit']
  decide +kernel

end CloneScout
