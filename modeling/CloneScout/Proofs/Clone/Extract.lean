import CloneScout.Clone.Unit
import CloneScout.Proofs.Grammar.Ranges.Parse
import CloneScout.Proofs.Text.Basic
import CloneScout.Proofs.Tree.Function

/-!
# Which functions are recorded

The records of a module are those of its functions, one function after the other. A function that
has the lines and statements for it gets a record of its own, and its blocks and segments unless its
name ends like the name of an initialiser. The classes around it make no difference to that.

In a source without faults every function has known lines, and windows over its body start one
behind the other. Block and segment records are chosen from the windows in their order.
-/

namespace CloneScout

theorem Text.endsWith_iff {t tail : Text} : Text.endsWith t tail = true ↔ tail <:+ t := by
  rw [Text.endsWith, Text.startsWith_iff, List.reverse_prefix]

/-- A text without the separator ends a joined text only if it ends the last part. -/
theorem Text.suffix_append_cons_iff {tail a b : Text} {sep : UInt8} (h : sep ∉ tail) :
    tail <:+ a ++ sep :: b ↔ tail <:+ b := by
  constructor
  · intro htail
    rcases Nat.lt_or_ge b.length tail.length with hlt | hle
    · have hsep : sep :: b <:+ tail :=
        List.suffix_of_suffix_length_le (List.suffix_append a (sep :: b)) htail hlt
      exact absurd (hsep.subset (List.mem_cons_self ..)) h
    · exact List.suffix_of_suffix_length_le htail
        ((List.suffix_cons sep b).trans (List.suffix_append a (sep :: b))) hle
  · exact fun htail => htail.trans ((List.suffix_cons sep b).trans (List.suffix_append a _))

/-! ## Names -/

/-- The name in a function definition. -/
def Stmt.functionName : Stmt → Text
  | .function _ _ name _ _ _ _ => name
  | _ => []

namespace Function

/-- The name of a function itself, without the classes around it. -/
def name (f : Function) : Text := f.definition.functionName

theorem qualify_cons (c : Text) (scope : List Text) (name : Text) :
    qualify (c :: scope) name = c ++ 46 :: qualify scope name := by
  have hdot : utf8 "." = [46] := by decide
  cases scope <;> simp [qualify, Text.join, hdot]

theorem endsWith_qualify {tail : Text} (h : 46 ∉ tail) (scope : List Text) (name : Text) :
    Text.endsWith (qualify scope name) tail = Text.endsWith name tail := by
  rw [Bool.eq_iff_iff, Text.endsWith_iff, Text.endsWith_iff]
  induction scope with
  | nil => rfl
  | cons c scope ih => rw [qualify_cons, Text.suffix_append_cons_iff h, ih]

section

set_option linter.unusedSectionVars false

variable {P : Function → Prop}
  (hfunction : ∀ scope x isAsync name params body decorators returns,
    P ⟨qualify scope name, .function x isAsync name params body decorators returns⟩)

include hfunction

mutual

theorem forall_ofStmt (scope : List Text) (s : Stmt) : ∀ f ∈ ofStmt scope s, P f := by
  cases s with
  | function => simpa [ofStmt] using hfunction scope _ _ _ _ _ _ _
  | classDef x name bases kws body decorators => exact forall_ofStmts (scope ++ [name]) body
  | withBlock x isAsync items body => exact forall_ofStmts scope body
  | branch x test body orelse =>
    exact List.forall_mem_append.mpr ⟨forall_ofStmts scope body, forall_ofStmts scope orelse⟩
  | whileLoop x test body orelse =>
    exact List.forall_mem_append.mpr ⟨forall_ofStmts scope body, forall_ofStmts scope orelse⟩
  | forLoop x isAsync target iter body orelse =>
    exact List.forall_mem_append.mpr ⟨forall_ofStmts scope body, forall_ofStmts scope orelse⟩
  | tryBlock x isStar body handlers orelse finalbody =>
    simp only [ofStmt, List.forall_mem_append]
    exact ⟨⟨⟨forall_ofStmts scope body, forall_ofHandlers scope handlers⟩,
      forall_ofStmts scope orelse⟩, forall_ofStmts scope finalbody⟩
  | matchBlock x subject cases => exact forall_ofCases scope cases
  | _ => exact fun f hf => absurd hf List.not_mem_nil

theorem forall_ofStmts (scope : List Text) (ss : List Stmt) : ∀ f ∈ ofStmts scope ss, P f := by
  cases ss with
  | nil => exact fun f hf => absurd hf List.not_mem_nil
  | cons s ss => exact List.forall_mem_append.mpr ⟨forall_ofStmt scope s, forall_ofStmts scope ss⟩

theorem forall_ofHandlers (scope : List Text) :
    ∀ hs : List Handler, ∀ f ∈ ofHandlers scope hs, P f
  | [] => fun _ hf => absurd hf List.not_mem_nil
  | .mk _ _ body :: rest =>
    List.forall_mem_append.mpr ⟨forall_ofStmts scope body, forall_ofHandlers scope rest⟩

theorem forall_ofCases (scope : List Text) : ∀ cs : List MatchCase, ∀ f ∈ ofCases scope cs, P f
  | [] => fun _ hf => absurd hf List.not_mem_nil
  | .mk _ _ body :: rest =>
    List.forall_mem_append.mpr ⟨forall_ofStmts scope body, forall_ofCases scope rest⟩

end

end

/-- The classes around a function do not turn it into an initialiser, nor out of one. -/
theorem endsWith_localName {m : Module} {f : Function} (h : f ∈ ofModule m) :
    Text.endsWith f.localName (utf8 "__init__") = Text.endsWith f.name (utf8 "__init__") :=
  forall_ofStmts
    (P := fun f =>
      Text.endsWith f.localName (utf8 "__init__") = Text.endsWith f.name (utf8 "__init__"))
    (fun scope _ _ name _ _ _ _ => endsWith_qualify (by decide) scope name) [] m.body f h

end Function

/-! ## Records of a module -/

namespace ExtractOptions

/-- The function has known lines, and enough lines and statements for a record. -/
def takesUnit (opt : ExtractOptions) (f : Function) : Bool :=
  f.isPlaced && opt.minLoc ≤ f.loc && opt.minStmt ≤ f.body.length

/-- The function has enough lines and statements for a record and for blocks. -/
def takesBlocks (opt : ExtractOptions) (f : Function) : Bool :=
  opt.takesUnit f && opt.blockMinLoc ≤ f.loc && opt.blockMinStmt ≤ f.body.length

/-- The function has enough lines and statements for a record and for segments. -/
def takesSegments (opt : ExtractOptions) (f : Function) : Bool :=
  opt.takesUnit f && opt.segmentMinLoc ≤ f.loc && opt.segmentMinStmt ≤ f.body.length

end ExtractOptions

namespace Extract

variable (cfg : Normal.Config) (opt : ExtractOptions) (filepath module : Text)

theorem foldl_append (g : Function → Extract) (fs : List Function) (acc : Extract) :
    fs.foldl (fun acc f => acc.append (g f)) acc =
      ⟨acc.units ++ fs.flatMap fun f => (g f).units,
        acc.blocks ++ fs.flatMap fun f => (g f).blocks,
        acc.segments ++ fs.flatMap fun f => (g f).segments⟩ := by
  induction fs generalizing acc with
  | nil => simp
  | cons f fs ih => rw [List.foldl_cons, ih]; simp [append]

/-- The records of a function, each part under its own conditions. -/
theorem ofFunction_eq (f : Function) :
    ofFunction cfg opt filepath module f =
      { units := if opt.takesUnit f then [.ofFunction cfg filepath module f] else []
        blocks :=
          if opt.takesBlocks f && !Text.endsWith f.localName (utf8 "__init__") then
            blocksOf cfg opt filepath (module ++ utf8 ":" ++ f.localName) f.body
          else []
        segments :=
          if opt.takesSegments f && !Text.endsWith f.localName (utf8 "__init__") then
            segmentsOf cfg opt filepath (module ++ utf8 ":" ++ f.localName) f.body
          else [] } := by
  by_cases htakes : opt.takesUnit f = true
  · have hskip : (!f.isPlaced || f.loc < opt.minLoc || f.body.length < opt.minStmt) = false := by
      grind [ExtractOptions.takesUnit]
    simp [ofFunction, hskip, htakes, ExtractOptions.takesBlocks, ExtractOptions.takesSegments,
      FunctionUnit.ofFunction, and_assoc, and_comm]
  · have hskip : (!f.isPlaced || f.loc < opt.minLoc || f.body.length < opt.minStmt) = true := by
      grind [ExtractOptions.takesUnit]
    simp [ofFunction, hskip, htakes, ExtractOptions.takesBlocks, ExtractOptions.takesSegments]

theorem flatMap_ite {α β : Type} (p : α → Bool) (g : α → List β) (as : List α) :
    (as.flatMap fun a => if p a then g a else []) = (as.filter p).flatMap g := by
  induction as with
  | nil => rfl
  | cons a as ih => by_cases h : p a = true <;> simp [h, ih]

/-- The records of a module: those of its functions in their order, chosen by their lines, their
statements and, for blocks and segments, their own names. -/
theorem ofModule_eq (m : Module) :
    ofModule cfg opt filepath module m =
      { units := ((Function.ofModule m).filter opt.takesUnit).map (.ofFunction cfg filepath module)
        blocks :=
          ((Function.ofModule m).filter fun f =>
            opt.takesBlocks f && !Text.endsWith f.name (utf8 "__init__")).flatMap fun f =>
              blocksOf cfg opt filepath (module ++ utf8 ":" ++ f.localName) f.body
        segments :=
          ((Function.ofModule m).filter fun f =>
            opt.takesSegments f && !Text.endsWith f.name (utf8 "__init__")).flatMap fun f =>
              segmentsOf cfg opt filepath (module ++ utf8 ":" ++ f.localName) f.body } := by
  have hname (p : Function → Bool) :
      ((Function.ofModule m).filter fun f => p f && !Text.endsWith f.localName (utf8 "__init__")) =
        (Function.ofModule m).filter fun f => p f && !Text.endsWith f.name (utf8 "__init__") :=
    List.filter_congr fun f hf => by rw [Function.endsWith_localName hf]
  simp only [ofModule, foldl_append, ofFunction_eq, flatMap_ite, hname, List.nil_append,
    List.map_eq_flatMap]

end Extract

/-! ## Records of a source text -/

/-- A source without faults gives the records of its functions, and whether a function has blocks
and segments depends on its lines, its statements and its own name. -/
theorem Extracted.extract_ofSource {cfg : Normal.Config} {opt : ExtractOptions}
    {filepath module source : Text}
    (hok : (Parsed.ofSource source opt.maxParseErrors).ok = true) :
    let fs := Function.ofModule (Parsed.ofSource source opt.maxParseErrors).module
    let r := Extracted.ofSource cfg opt filepath module source
    let isInit := fun f : Function => Text.endsWith f.name (utf8 "__init__")
    r.ok = true ∧
      r.extract.units = (fs.filter opt.takesUnit).map (.ofFunction cfg filepath module) ∧
      r.extract.blocks = (fs.filter fun f => opt.takesBlocks f && !isInit f).flatMap (fun f =>
        blocksOf cfg opt filepath (module ++ utf8 ":" ++ f.localName) f.body) ∧
      r.extract.segments = (fs.filter fun f => opt.takesSegments f && !isInit f).flatMap (fun f =>
        segmentsOf cfg opt filepath (module ++ utf8 ":" ++ f.localName) f.body) := by
  intro fs r isInit
  have hextract : r.extract = .ofModule cfg opt filepath module
      (Parsed.ofSource source opt.maxParseErrors).module := by
    simp [r, Extracted.ofSource, hok]
  rw [hextract, Extract.ofModule_eq]
  exact ⟨hok, rfl, rfl, rfl⟩

/-- Of two methods of a class both are recorded, and the one that is no initialiser is cut into blocks
and segments. -/
theorem Extracted.extract_ofSource_class :
    let source := utf8 "class A:\n def __init__(a):\n  b\n def c(a):\n  b\n"
    let opt : ExtractOptions :=
      { minLoc := 1, minStmt := 1, blockMinLoc := 1, blockMinStmt := 1, blockSize := 1
        segmentMinLoc := 1, segmentMinStmt := 1, segmentWindow := 1 }
    let p := Parsed.ofSource source opt.maxParseErrors
    let r := Extracted.ofSource {} opt (utf8 "m.py") (utf8 "m") source
    p.ok = true ∧ ∃ f g, Function.ofModule p.module = [f, g] ∧ f.name = utf8 "__init__" ∧
      r.extract.units =
        [.ofFunction {} (utf8 "m.py") (utf8 "m") f, .ofFunction {} (utf8 "m.py") (utf8 "m") g] ∧
      r.extract.blocks = blocksOf {} opt (utf8 "m.py") (utf8 "m:" ++ g.localName) g.body ∧
      r.extract.segments = segmentsOf {} opt (utf8 "m.py") (utf8 "m:" ++ g.localName) g.body := by
  intro source opt p r
  have hok : p.ok = true := by decide +kernel
  have hlength : (Function.ofModule p.module).length = 2 := by decide +kernel
  have htakes : (Function.ofModule p.module).map (fun f =>
      (opt.takesUnit f, opt.takesBlocks f && !Text.endsWith f.name (utf8 "__init__"),
        opt.takesSegments f && !Text.endsWith f.name (utf8 "__init__"))) =
      [(true, false, false), (true, true, true)] := by
    decide +kernel
  have hname : (Function.ofModule p.module).head?.map (·.name) = some (utf8 "__init__") := by
    decide +kernel
  have hcolon : utf8 "m" ++ utf8 ":" = utf8 "m:" := by decide
  obtain ⟨-, hunits, hblocks, hsegments⟩ :=
    @Extracted.extract_ofSource {} opt (utf8 "m.py") (utf8 "m") source hok
  match hfunctions : Function.ofModule p.module, hlength with
  | [f, g], _ =>
    simp only [hfunctions, List.map_cons, List.map_nil, List.cons.injEq, Prod.mk.injEq] at htakes
    obtain ⟨⟨hf, hfb, hfs⟩, ⟨hg, hgb, hgs⟩, -⟩ := htakes
    refine ⟨hok, f, g, rfl, by simpa [hfunctions] using hname, ?_, ?_, ?_⟩
    · simp [r, hunits, p, hfunctions, hf, hg]
    · simp [r, hblocks, p, hfunctions, hfb, hgb, hcolon]
    · simp [r, hsegments, p, hfunctions, hfs, hgs, hcolon]

/-- A function that is not an initialiser has no blocks because its name ends like one. -/
theorem Extracted.blocks_ofSource_ne_named :
    let source := utf8 "def reset__init__(a):\n b\n"
    let opt : ExtractOptions :=
      { minLoc := 1, minStmt := 1, blockMinLoc := 1, blockMinStmt := 1, blockSize := 1
        segmentMinLoc := 1, segmentMinStmt := 1, segmentWindow := 1 }
    let fs := Function.ofModule (Parsed.ofSource source opt.maxParseErrors).module
    let r := Extracted.ofSource {} opt (utf8 "m.py") (utf8 "m") source
    r.ok = true ∧ fs.map (·.name) = [utf8 "reset__init__"] ∧
      r.extract.blocks ≠
        (fs.filter fun f => opt.takesBlocks f && f.name ≠ utf8 "__init__").flatMap (fun f =>
          blocksOf {} opt (utf8 "m.py") (utf8 "m" ++ utf8 ":" ++ f.localName) f.body) := by
  decide +kernel

end CloneScout

namespace CloneScout

/-! ## Functions -/

theorem Stmt.functionBody_sublist (s : Stmt) : s.functionBody.Sublist s.inner := by
  cases s <;> simp [functionBody, inner, lists]

namespace Function

variable {m : Module} {f : Function}

theorem isPlaced_iff : f.isPlaced = true ↔ f.definition.extent.IsRange := by
  simp only [isPlaced, Bool.and_eq_true, decide_eq_true_eq]
  unfold line endLine Extent.IsRange
  omega

/-- A function of an ordered module has known lines and an ordered body. -/
theorem ordered_of_mem (h : Every.module Node.Ordered m) (hf : f ∈ ofModule m) :
    f.isPlaced = true ∧ InOrder f.body := by
  have hstmt : Every.stmt Node.Ordered f.definition := every_ofStmts h.2 f hf
  obtain ⟨hrange, horder, -⟩ :=
    ((Every.stmt_iff_inner (fun _ => trivial) fun _ => trivial).mp hstmt).1
  exact ⟨isPlaced_iff.mpr hrange, horder.sublist f.definition.functionBody_sublist⟩

end Function

/-! ## Windows -/

/-- The windows start with the elements of the list, as far as a whole window fits behind them. -/
theorem map_head_windows {α β : Type} {n : Nat} (hn : n ≠ 0) (g : α → β) (b : β) (l : List α) :
    ((windows n l).map fun w => w.head?.elim b g) <+: l.map g := by
  induction l with
  | nil => exact List.prefix_rfl
  | cons a l ih =>
    unfold windows
    split
    · obtain ⟨k, rfl⟩ := Nat.exists_eq_succ_of_ne_zero hn
      exact List.prefix_cons_inj _ |>.mpr ih
    · exact List.nil_prefix

theorem Window.startLine_prefix (cfg : Normal.Config) (n : Nat) (body : List Stmt) :
    (ofBody cfg n body).map startLine <+: body.map (·.extent.line) := by
  unfold ofBody
  split
  · exact List.nil_prefix
  · next hn =>
    have h := map_head_windows hn (fun p : Text × Extent => p.2.line) 0
      (body.map fun s => (stmtHash cfg s, s.extent))
    simpa [Function.comp_def] using h

theorem spaced_sublist (distance : Nat) (last : Option Nat) (ws : List Window) :
    (spaced distance last ws).Sublist ws := by
  induction ws generalizing last with
  | nil => exact .slnil
  | cons w ws ih =>
    unfold spaced
    split
    · exact (ih last).cons w
    · exact (ih _).cons_cons w

section

variable (cfg : Normal.Config) (opt : ExtractOptions) (filepath qualname : Text) (body : List Stmt)

theorem blocksOf_startLine_sublist :
    ((blocksOf cfg opt filepath qualname body).map BlockUnit.startLine).Sublist
      (body.map (·.extent.line)) := by
  have hwindows := (Window.startLine_prefix cfg opt.blockSize body).sublist
  have hchosen := ((List.take_sublist (max 1 opt.maxBlocks) _).trans
    (spaced_sublist (max (opt.blockSize / 2) 3) none (Window.ofBody cfg opt.blockSize body)))
  simpa [blocksOf, Function.comp_def] using (hchosen.map Window.startLine).trans hwindows

theorem segmentsOf_startLine_sublist :
    ((segmentsOf cfg opt filepath qualname body).map SegmentUnit.startLine).Sublist
      (body.map (·.extent.line)) := by
  have hwindows := (Window.startLine_prefix cfg opt.segmentWindow body).sublist
  have hchosen := List.take_sublist (max 1 opt.maxSegments)
    (Window.ofBody cfg opt.segmentWindow body)
  simpa [segmentsOf, Function.comp_def] using (hchosen.map Window.startLine).trans hwindows

end

theorem InOrder.sorted_lines {ss : List Stmt} (h : InOrder ss) {lines : List Nat}
    (hlines : lines.Sublist (ss.map (·.extent.line))) : lines.Pairwise (· ≤ ·) :=
  (List.pairwise_map.mpr h.sorted).sublist hlines

/-! ## Sources -/

/-- In a source without faults every statement has a range, the statements of a list lie one behind
the other, and none starts in front of the statement around it. The ranges are nested if every
compound statement holds a statement, and so if the source does not end in a comment. All functions
have known lines, and windows over their bodies start one behind the other. -/
theorem Parsed.ordered_ofSource {source : Text} {maxErrors : Nat}
    (hok : (ofSource source maxErrors).ok = true)
    (hfits : Word.fits (lineOf source source.length) = true) :
    let m := (ofSource source maxErrors).module
    let ends := Token.Lexer.EndsInComment (Token.Lexer.start source).rest
    Every.module Node.Ordered m ∧
      (Every.module Node.Filled m ∨ ¬ ends → Every.module Node.Nested m) ∧
      ∀ f ∈ Function.ofModule m, f.isPlaced = true ∧
        ∀ cfg opt filepath qualname,
          (∀ n, ((Window.ofBody cfg n f.body).map Window.startLine).Pairwise (· ≤ ·)) ∧
          ((blocksOf cfg opt filepath qualname f.body).map BlockUnit.startLine).Pairwise (· ≤ ·) ∧
          ((segmentsOf cfg opt filepath qualname f.body).map
            SegmentUnit.startLine).Pairwise (· ≤ ·) := by
  intro m ends
  obtain ⟨hordered, hnested, hfilled⟩ := ranges_module hok hfits
  refine ⟨hordered, fun h => hnested (h.elim id hfilled), fun f hf => ?_⟩
  obtain ⟨hplaced, hbody⟩ := Function.ordered_of_mem hordered hf
  refine ⟨hplaced, fun cfg opt filepath qualname => ⟨fun n => ?_, ?_, ?_⟩⟩
  · exact hbody.sorted_lines (Window.startLine_prefix cfg n f.body).sublist
  · exact hbody.sorted_lines (blocksOf_startLine_sublist cfg opt filepath qualname f.body)
  · exact hbody.sorted_lines (segmentsOf_startLine_sublist cfg opt filepath qualname f.body)

/-- A method with a branch in a class. The comment does not end the source. -/
theorem Parsed.ordered_ofSource_method :
    let source := utf8 "class A:\n def f(a):\n  if a:\n   b\n  # c\n  d\n"
    let p := ofSource source 64
    p.ok = true ∧ Word.fits (lineOf source source.length) = true ∧
      ¬ Token.Lexer.EndsInComment (Token.Lexer.start source).rest ∧
      Every.module Node.Ordered p.module ∧ Every.module Node.Nested p.module ∧
      ∃ f, Function.ofModule p.module = [f] ∧ f.isPlaced = true ∧
        (Window.ofBody {} 1 f.body).map Window.startLine = [3, 6] := by
  intro source p
  have hok : p.ok = true := by decide +kernel
  have hfits : Word.fits (lineOf source source.length) = true := by decide +kernel
  have hcomment : ¬ Token.Lexer.EndsInComment (Token.Lexer.start source).rest := by
    unfold Token.Lexer.EndsInComment
    decide +kernel
  obtain ⟨hordered, hnested, hfunctions⟩ := Parsed.ordered_ofSource hok hfits
  have hlength : (Function.ofModule p.module).length = 1 := by decide +kernel
  have hlines : (Function.ofModule p.module).map (fun f =>
      (Window.ofBody {} 1 f.body).map Window.startLine) = [[3, 6]] := by
    decide +kernel
  obtain ⟨f, hf⟩ := List.length_eq_one_iff.mp hlength
  refine ⟨hok, hfits, hcomment, hordered, hnested (.inr hcomment), f, hf, ?_, ?_⟩
  · exact (hfunctions f (by rw [hf]; exact List.mem_singleton_self f)).1
  · simpa [hf] using hlines

/-- An indented comment that ends the source opens a block, which closes again without a statement.
So the branch around it is empty, and the function ends in front of its branch. -/
theorem Parsed.not_within_ofSource :
    let p := ofSource (utf8 "def f():\n if a:\n  # c") 64
    p.ok = true ∧ ∃ f ∈ Function.ofModule p.module, ∃ c ∈ f.body,
      f.definition.extent.endLine < c.extent.line := by
  decide +kernel

end CloneScout
