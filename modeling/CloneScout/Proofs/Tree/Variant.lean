import CloneScout.Normal.Basic

/-!
# Variants of functions

A variant of a tree has the same statements and expressions, but its functions may be annotated in
another way, or have a docstring where there was none. Functions are found wherever statements are:
in functions, classes, loops and all other blocks. Where the difference is irrelevant to a
configuration, variants have one normal form.
-/

namespace CloneScout

/-! ## Signatures without annotations -/

def Param.unhinted : Param → Param
  | .mk id _ value => .mk id none value

def Params.unhinted : Params → Params
  | .mk posOnly plain star kwOnly doubleStar =>
    .mk (posOnly.map Param.unhinted) (plain.map Param.unhinted) (star.map Param.unhinted)
      (kwOnly.map Param.unhinted) (doubleStar.map Param.unhinted)

/-- In what the definitions of functions may differ. -/
structure Leeway where
  /-- Annotations of parameters and results may be added, changed and removed. -/
  hints : Bool := false
  /-- A function without a docstring may get one. -/
  docstrings : Bool := false

namespace Leeway

/-- The signatures are the same, apart from annotations if these may differ. -/
def Signature (v : Leeway) (ps : Params) (returns : Option Expr) (ps' : Params)
    (returns' : Option Expr) : Prop :=
  if v.hints then ps'.unhinted = ps.unhinted else ps' = ps ∧ returns' = returns

/-- The new body is `rest`, or `rest` behind a docstring that the old body does not have. -/
def Documented (v : Leeway) (body rest body' : List Stmt) : Prop :=
  body' = rest ∨
    v.docstrings = true ∧ startsWithDocstring body = false ∧
      ∃ doc, startsWithDocstring [doc] = true ∧ body' = doc :: rest

/-- What may differ is irrelevant to the configuration. -/
structure Fits (v : Leeway) (cfg : Normal.Config) : Prop where
  hints : v.hints = true → cfg.ignoreHints = true
  docstrings : v.docstrings = true → cfg.ignoreDocstrings = true

end Leeway

/-! ## Variants -/

namespace Variant

mutual

/-- The second statement is a variant of the first. -/
def stmt (v : Leeway) : Stmt → Stmt → Prop
  | .function x isAsync id ps body decorators returns, t =>
    ∃ ps' rest body' returns', t = .function x isAsync id ps' body' decorators returns' ∧
      v.Signature ps returns ps' returns' ∧ stmts v body rest ∧ v.Documented body rest body'
  | .classDef x id bases kws body decorators, t =>
    ∃ body', t = .classDef x id bases kws body' decorators ∧ stmts v body body'
  | .forLoop x isAsync target iter body orelse, t =>
    ∃ body' orelse', t = .forLoop x isAsync target iter body' orelse' ∧ stmts v body body' ∧
      stmts v orelse orelse'
  | .whileLoop x test body orelse, t =>
    ∃ body' orelse', t = .whileLoop x test body' orelse' ∧ stmts v body body' ∧
      stmts v orelse orelse'
  | .branch x test body orelse, t =>
    ∃ body' orelse', t = .branch x test body' orelse' ∧ stmts v body body' ∧
      stmts v orelse orelse'
  | .withBlock x isAsync items body, t =>
    ∃ body', t = .withBlock x isAsync items body' ∧ stmts v body body'
  | .matchBlock x subject cs, t => ∃ cs', t = .matchBlock x subject cs' ∧ cases v cs cs'
  | .tryBlock x isStar body hs orelse finalbody, t =>
    ∃ body' hs' orelse' finalbody', t = .tryBlock x isStar body' hs' orelse' finalbody' ∧
      stmts v body body' ∧ handlers v hs hs' ∧ stmts v orelse orelse' ∧
      stmts v finalbody finalbody'
  | s, t => t = s
termination_by structural s => s

def stmts (v : Leeway) : List Stmt → List Stmt → Prop
  | [], ts => ts = []
  | s :: rest, ts => ∃ t rest', ts = t :: rest' ∧ stmt v s t ∧ stmts v rest rest'
termination_by structural ss => ss

def handlers (v : Leeway) : List Handler → List Handler → Prop
  | [], hs => hs = []
  | .mk type id body :: rest, hs =>
    ∃ body' rest', hs = .mk type id body' :: rest' ∧ stmts v body body' ∧ handlers v rest rest'
termination_by structural hs => hs

def cases (v : Leeway) : List MatchCase → List MatchCase → Prop
  | [], cs => cs = []
  | .mk p guard body :: rest, cs =>
    ∃ body' rest', cs = .mk p guard body' :: rest' ∧ stmts v body body' ∧ cases v rest rest'
termination_by structural cs => cs

end

variable {v : Leeway} {cfg : Normal.Config}

theorem isEmpty_stmts {ss ts : List Stmt} (h : stmts v ss ts) : ts.isEmpty = ss.isEmpty := by
  cases ss with
  | nil =>
    obtain rfl := h
    rfl
  | cons =>
    obtain ⟨_, _, rfl, -⟩ := h
    rfl

theorem isEmpty_handlers {hs hs' : List Handler} (h : handlers v hs hs') :
    hs'.isEmpty = hs.isEmpty := by
  rcases hs with _ | ⟨⟨type, id, body⟩, rest⟩
  · obtain rfl := h
    rfl
  · obtain ⟨_, _, rfl, -⟩ := h
    rfl

theorem length_handlers {hs hs' : List Handler} (h : handlers v hs hs') :
    hs'.length = hs.length := by
  induction hs generalizing hs' with
  | nil =>
    obtain rfl := h
    rfl
  | cons first rest ih =>
    obtain ⟨type, id, body⟩ := first
    obtain ⟨body', rest', rfl, -, hrest⟩ := h
    rw [List.length_cons, List.length_cons, ih hrest]

theorem exists_functionBody {s t : Stmt} (h : stmt v s t) :
    ∃ rest, stmts v s.functionBody rest ∧ v.Documented s.functionBody rest t.functionBody := by
  cases s
  case function =>
    obtain ⟨_, rest, _, _, rfl, -, hbody, hdoc⟩ := h
    exact ⟨rest, hbody, hdoc⟩
  case classDef => obtain ⟨_, rfl, -⟩ := h; exact ⟨[], rfl, .inl rfl⟩
  case forLoop => obtain ⟨_, _, rfl, -⟩ := h; exact ⟨[], rfl, .inl rfl⟩
  case whileLoop => obtain ⟨_, _, rfl, -⟩ := h; exact ⟨[], rfl, .inl rfl⟩
  case branch => obtain ⟨_, _, rfl, -⟩ := h; exact ⟨[], rfl, .inl rfl⟩
  case withBlock => obtain ⟨_, rfl, -⟩ := h; exact ⟨[], rfl, .inl rfl⟩
  case matchBlock => obtain ⟨_, rfl, -⟩ := h; exact ⟨[], rfl, .inl rfl⟩
  case tryBlock => obtain ⟨_, _, _, _, rfl, -⟩ := h; exact ⟨[], rfl, .inl rfl⟩
  all_goals
    obtain rfl := h
    exact ⟨[], rfl, .inl rfl⟩

/-! ## Docstrings -/

/-- No variant makes a text literal of another statement or the other way round. -/
theorem startsWithDocstring_stmt {s t : Stmt} (h : stmt v s t) (rest rest' : List Stmt) :
    startsWithDocstring (t :: rest') = startsWithDocstring (s :: rest) := by
  cases s
  case function => obtain ⟨_, _, _, _, rfl, -⟩ := h; rfl
  case classDef => obtain ⟨_, rfl, -⟩ := h; rfl
  case forLoop => obtain ⟨_, _, rfl, -⟩ := h; rfl
  case whileLoop => obtain ⟨_, _, rfl, -⟩ := h; rfl
  case branch => obtain ⟨_, _, rfl, -⟩ := h; rfl
  case withBlock => obtain ⟨_, rfl, -⟩ := h; rfl
  case matchBlock => obtain ⟨_, rfl, -⟩ := h; rfl
  case tryBlock => obtain ⟨_, _, _, _, rfl, -⟩ := h; rfl
  case expr x value =>
    obtain rfl : t = .expr x value := h
    -- whether it is a docstring is seen two levels further down
    cases value <;> first | rfl | skip
    rename_i c
    cases c <;> rfl
  all_goals
    obtain rfl := h
    rfl

theorem startsWithDocstring_stmts {ss ts : List Stmt} (h : stmts v ss ts) :
    startsWithDocstring ts = startsWithDocstring ss := by
  cases ss with
  | nil =>
    obtain rfl := h
    rfl
  | cons s rest =>
    obtain ⟨t, rest', rfl, hs, -⟩ := h
    exact startsWithDocstring_stmt hs rest rest'

theorem startsWithDocstring_cons {doc : Stmt} (h : startsWithDocstring [doc] = true)
    (rest : List Stmt) : startsWithDocstring (doc :: rest) = true := by
  unfold startsWithDocstring at h ⊢
  split at h
  · rename_i heq
    obtain ⟨rfl, -⟩ := List.cons.inj heq
    rfl
  · cases h

/-- Without their docstrings, the old and the new body are variants. -/
theorem stmts_withoutDocstring {body rest body' : List Stmt} (h : stmts v body rest)
    (hdoc : v.Documented body rest body') :
    stmts v (withoutDocstring body) (withoutDocstring body') := by
  obtain rfl | ⟨-, hnone, doc, hnew, rfl⟩ := hdoc
  · rw [withoutDocstring, withoutDocstring, startsWithDocstring_stmts h]
    split
    · cases body with
      | nil =>
        obtain rfl : _ = [] := h
        rfl
      | cons s body =>
        obtain ⟨t, rest, rfl, -, hrest⟩ := h
        exact hrest
    · exact h
  · rw [withoutDocstring, hnone, withoutDocstring, startsWithDocstring_cons hnew]
    exact h

/-! ## Normal forms -/

theorem normal_paramList (hcfg : cfg.ignoreHints = true) (ps : List Param) :
    Normal.paramList cfg (ps.map Param.unhinted) = Normal.paramList cfg ps := by
  induction ps with
  | nil => rfl
  | cons p rest ih =>
    obtain ⟨id, hint, value⟩ := p
    simp [Param.unhinted, Normal.paramList, Normal.param, hcfg, ih]

theorem normal_optParam (hcfg : cfg.ignoreHints = true) (p : Option Param) :
    Normal.optParam cfg (p.map Param.unhinted) = Normal.optParam cfg p := by
  rcases p with _ | ⟨id, hint, value⟩
  · rfl
  · simp [Param.unhinted, Normal.optParam, Normal.param, hcfg]

theorem normal_params (hcfg : cfg.ignoreHints = true) (ps : Params) :
    Normal.params cfg ps.unhinted = Normal.params cfg ps := by
  obtain ⟨posOnly, plain, star, kwOnly, doubleStar⟩ := ps
  simp only [Params.unhinted, Normal.params, normal_paramList hcfg, normal_optParam hcfg]

/-- The signatures of variants have one normal form. -/
theorem normal_signature (hv : v.Fits cfg) {ps ps' : Params} {returns returns' : Option Expr}
    (h : v.Signature ps returns ps' returns') :
    Normal.params cfg ps' = Normal.params cfg ps ∧
      (if cfg.ignoreHints then none else Normal.optExpr cfg returns') =
        if cfg.ignoreHints then none else Normal.optExpr cfg returns := by
  unfold Leeway.Signature at h
  split at h
  case isTrue hhints =>
    have hcfg := hv.hints hhints
    refine ⟨?_, by rw [if_pos hcfg, if_pos hcfg]⟩
    rw [← normal_params hcfg ps', h, normal_params hcfg ps]
  case isFalse =>
    obtain ⟨rfl, rfl⟩ := h
    exact ⟨rfl, rfl⟩

/-- The bodies of variants have one normal form once it is known for what they share. -/
theorem normal_functionBody (hv : v.Fits cfg) {body rest body' : List Stmt}
    (h : stmts v body rest) (hrest : Normal.stmts cfg rest = Normal.stmts cfg body)
    (hdoc : v.Documented body rest body') :
    (if cfg.ignoreDocstrings && startsWithDocstring body' then (Normal.stmts cfg body').drop 1
      else Normal.stmts cfg body') =
    if cfg.ignoreDocstrings && startsWithDocstring body then (Normal.stmts cfg body).drop 1
      else Normal.stmts cfg body := by
  obtain rfl | ⟨hnew, hnone, doc, hdoc, rfl⟩ := hdoc
  · rw [startsWithDocstring_stmts h, hrest]
  · -- the new docstring goes, and there is none in the old body that could go
    rw [hv.docstrings hnew, startsWithDocstring_cons hdoc, hnone]
    exact hrest

mutual

theorem normal_stmt (hv : v.Fits cfg) {s t : Stmt} (h : stmt v s t) :
    Normal.stmt cfg t = Normal.stmt cfg s := by
  cases s
  case function =>
    obtain ⟨ps', rest, body', returns', rfl, hsig, hbody, hdoc⟩ := h
    obtain ⟨hps, hreturns⟩ := normal_signature hv hsig
    rw [Normal.stmt, Normal.stmt, hps, hreturns,
      normal_functionBody hv hbody (normal_stmts hv hbody) hdoc]
  case classDef =>
    obtain ⟨body', rfl, hbody⟩ := h
    rw [Normal.stmt, Normal.stmt, normal_stmts hv hbody]
  case forLoop =>
    obtain ⟨body', orelse', rfl, hbody, horelse⟩ := h
    rw [Normal.stmt, Normal.stmt, normal_stmts hv hbody, normal_stmts hv horelse]
  case whileLoop =>
    obtain ⟨body', orelse', rfl, hbody, horelse⟩ := h
    rw [Normal.stmt, Normal.stmt, normal_stmts hv hbody, normal_stmts hv horelse]
  case branch =>
    obtain ⟨body', orelse', rfl, hbody, horelse⟩ := h
    rw [Normal.stmt, Normal.stmt, normal_stmts hv hbody, normal_stmts hv horelse]
  case withBlock =>
    obtain ⟨body', rfl, hbody⟩ := h
    rw [Normal.stmt, Normal.stmt, normal_stmts hv hbody]
  case matchBlock =>
    obtain ⟨cs', rfl, hcases⟩ := h
    rw [Normal.stmt, Normal.stmt, normal_cases hv hcases]
  case tryBlock =>
    obtain ⟨body', hs', orelse', finalbody', rfl, hbody, hhandlers, horelse, hfinal⟩ := h
    rw [Normal.stmt, Normal.stmt, normal_stmts hv hbody, normal_handlers hv hhandlers,
      normal_stmts hv horelse, normal_stmts hv hfinal]
  all_goals
    obtain rfl := h
    rfl
termination_by structural s

theorem normal_stmts (hv : v.Fits cfg) {ss ts : List Stmt} (h : stmts v ss ts) :
    Normal.stmts cfg ts = Normal.stmts cfg ss := by
  cases ss with
  | nil =>
    obtain rfl := h
    rfl
  | cons s rest =>
    obtain ⟨t, rest', rfl, hs, hrest⟩ := h
    rw [Normal.stmts, Normal.stmts, normal_stmt hv hs, normal_stmts hv hrest]
termination_by structural ss

theorem normal_handlers (hv : v.Fits cfg) {hs hs' : List Handler} (h : handlers v hs hs') :
    Normal.handlers cfg hs' = Normal.handlers cfg hs := by
  rcases hs with _ | ⟨⟨type, id, body⟩, rest⟩
  · obtain rfl := h
    rfl
  · obtain ⟨body', rest', rfl, hbody, hrest⟩ := h
    rw [Normal.handlers, Normal.handlers, normal_stmts hv hbody, normal_handlers hv hrest]
termination_by structural hs

theorem normal_cases (hv : v.Fits cfg) {cs cs' : List MatchCase} (h : cases v cs cs') :
    Normal.cases cfg cs' = Normal.cases cfg cs := by
  rcases cs with _ | ⟨⟨p, guard, body⟩, rest⟩
  · obtain rfl := h
    rfl
  · obtain ⟨body', rest', rfl, hbody, hrest⟩ := h
    rw [Normal.cases, Normal.cases, normal_stmts hv hbody, normal_cases hv hrest]
termination_by structural cs

end

theorem bodyText_eq (hv : v.Fits cfg) {ss ts : List Stmt} (h : stmts v ss ts) :
    Normal.bodyText cfg ts = Normal.bodyText cfg ss := by
  rw [Normal.bodyText, Normal.bodyText]
  congr 1
  induction ss generalizing ts with
  | nil =>
    obtain rfl := h
    rfl
  | cons s rest ih =>
    obtain ⟨t, rest', rfl, hs, hrest⟩ := h
    rw [List.map_cons, List.map_cons, ih hrest, Normal.stmtText, Normal.stmtText,
      normal_stmt hv hs]

end Variant

end CloneScout
