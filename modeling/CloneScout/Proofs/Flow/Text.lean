import CloneScout.Proofs.Flow.Paths
import CloneScout.Proofs.Normal.Faithful
import CloneScout.Proofs.Tree.Encoded
import CloneScout.Proofs.Tree.Stable
import Mathlib.Data.List.Forall2

/-!
# The text of a graph can be read back

An entry is written as a node, which ends with the bracket that closes it, so no semicolon and no
bar inside quotes is taken for one between entries or behind them. Numbers of blocks end before a
comma or a bar. So the text of a graph determines how many blocks there are, what each of them shows
and where it leads.
-/

namespace CloneScout.Flow

open Text (pruned)

/-! ## Entries as documents -/

/-- The parts of the entry are lawful, and a remark is a sequence of code points. -/
def Entry.Lawful : Entry → Prop
  | .stmt s => Every.stmt Node.Lawful s
  | .expr e => Every.expr Node.Lawful e
  | .remark t => Utf8.IsEncoded t

/-- The document whose text an entry is written as. A remark is written as a name on its own. -/
def Entry.document (cfg : Normal.Config) : Entry → Document
  | .stmt s => (Dump.stmt (Normal.stmt cfg s)).shown pruned true
  | .expr e => .node "Expr" [("value", some ((Dump.expr (Normal.expr cfg false e)).shown pruned true))]
  | .remark t => Dump.stmt (.expr .blank (.name .blank (Normal.metaMark ++ t) .load))

namespace Entry

variable {e : Entry}

theorem readable_normal (cfg : Normal.Config) {s : Stmt} (h : Every.stmt Node.Lawful s) :
    (Dump.stmt (Normal.stmt cfg s)).Readable true :=
  Dump.readable_stmt (Normal.lawful_stmt cfg h)

theorem readable_normalExpr (cfg : Normal.Config) {e : Expr} (h : Every.expr Node.Lawful e) :
    (Dump.expr (Normal.expr cfg false e)).Readable true := by
  have hstmt : Every.stmt Node.Lawful (.expr .blank e) := ⟨trivial, h⟩
  exact Dump.readable_expr (Normal.lawful_stmt cfg hstmt).2

theorem readable_document (cfg : Normal.Config) (h : e.Lawful) :
    (e.document cfg).Readable false := by
  cases e with
  | stmt s => exact Document.readable_shown (fun _ => isEncoded_pruned) (readable_normal cfg h)
  | expr e =>
    have hvalue : ((Dump.expr (Normal.expr cfg false e)).shown pruned true).Readable false :=
      Document.readable_shown (fun _ => isEncoded_pruned) (readable_normalExpr cfg h)
    exact ⟨by decide, by simp [Document.Led], by decide, hvalue, trivial⟩
  | remark t =>
    have hmark : Utf8.IsEncoded Normal.metaMark := .of_ascii (by decide)
    have hname : (Document.node "Name" [("id", some (.quoted (Normal.metaMark ++ t))),
        ("ctx", some (.node "Load" []))]).Readable false :=
      ⟨by decide, by simp [Document.Led], by decide, hmark.append h, by decide,
        ⟨by decide, by simp [Document.Led], trivial⟩, trivial⟩
    exact ⟨by decide, by simp [Document.Led], by decide, hname, trivial⟩

theorem form_document (cfg : Normal.Config) (e : Entry) : (e.document cfg).form = .node := by
  cases e with
  | stmt s =>
    rw [document]
    cases Normal.stmt cfg s <;> rfl
  | expr e => rfl
  | remark t => rfl

/-- An expression on its own. -/
theorem toText_value (d : Document) : (Document.node "Expr" [("value", some d)]).toText true =
    utf8 "Expr(value=" ++ d.toText true ++ utf8 ")" := by
  have hstart : utf8 "Expr(value=" = utf8 "Expr" ++ (utf8 "(" ++ (utf8 "value" ++ utf8 "=")) := by
    decide
  rw [Document.toText_node, hstart]
  simp [Document.present, Document.fieldText, Text.join]

theorem toText_name (id : Text) : (Dump.expr (.name .blank id .load)).toText true =
    utf8 "Name(id=" ++ Quoted.text id ++ utf8 ", ctx=Load())" := by
  have hstart : utf8 "Name(id=" = utf8 "Name" ++ (utf8 "(" ++ (utf8 "id" ++ utf8 "=")) := by decide
  have hend : utf8 ", ctx=Load())" = utf8 ", " ++ (utf8 "ctx" ++ (utf8 "=" ++
      ((Document.node "Load" []).toText true ++ utf8 ")"))) := by
    rw [Document.toText_node]
    decide
  show (Document.node "Name" [("id", some (.quoted id)), ("ctx", some (.node "Load" []))]).toText
    true = _
  rw [Document.toText_node, hstart, hend]
  simp [Document.present, Document.fieldText, Text.join, Document.toText_quoted]

theorem text_eq (cfg : Normal.Config) (h : e.Lawful) : e.text cfg = (e.document cfg).toText true := by
  cases e with
  | stmt s => exact Document.pruned_toText (readable_normal cfg h)
  | expr e =>
    rw [document, toText_value, ← Document.pruned_toText (readable_normalExpr cfg h)]
    rfl
  | remark t =>
    have hstart : utf8 "Expr(value=Name(id=" = utf8 "Expr(value=" ++ utf8 "Name(id=" := by decide
    have hend : utf8 ", ctx=Load()))" = utf8 ", ctx=Load())" ++ utf8 ")" := by decide
    rw [document, Dump.stmt, toText_value, toText_name, text, hstart, hend]
    simp only [List.append_assoc]

end Entry

/-! ## Blocks -/

/-- The blocks show the same texts, each under its configuration, and lead to the same blocks. -/
structure Block.Same (cfg cfg' : Normal.Config) (a b : Block) : Prop where
  texts : a.entries.map (Entry.text cfg) = b.entries.map (Entry.text cfg')
  successors : a.successors = b.successors

/-- What stands behind a block: nothing, or the bar in front of the next one. -/
def Closes (r : Text) : Prop := ∀ b ∈ r.head?, b = ascii '|'

theorem closes_bar (t : Text) : Closes (utf8 "|" ++ t) := by
  intro b hb
  exact (Option.some.inj hb).symm

/-- Numbers of blocks with commas between them. -/
theorem successors_inj {ns ns' : List Nat} {r r' : Text} (hr : Closes r) (hr' : Closes r')
    (h : Text.join (utf8 ",") (ns.map Text.ofNat) ++ r =
      Text.join (utf8 ",") (ns'.map Text.ofNat) ++ r') : ns = ns' ∧ r = r' := by
  have hbar : Text.isWordByte (ascii '|') = false := by decide
  have hcomma : Text.Delimits (utf8 ",") Closes Text.Breaks := by
    refine ⟨fun t => Text.breaks_cons (by decide), fun r hr b hb => ?_, fun r hr hsep => ?_⟩
    · rw [hr b hb]
      exact hbar
    · obtain ⟨t, rfl⟩ := hsep
      exact absurd (hr (ascii ',') rfl) (by decide)
  refine hcomma.join_inj hr hr' (fun n _ t hstop => ?_) (fun n _ n' _ r r' hr hr' heq => ?_) h
  · -- a numeral is not empty and does not start with a bar
    obtain ⟨hne, hword⟩ := Text.isBare_ofNat n
    obtain ⟨b, s, hs⟩ := List.exists_cons_of_ne_nil hne
    have hhead := hstop b (by rw [hs]; rfl)
    exact absurd (hword b (by simp [hs])) (by rw [hhead, hbar]; decide)
  · obtain ⟨hnumeral, hrest⟩ := Text.word_append_inj (Text.isBare_ofNat n).2 (Text.isBare_ofNat n').2
      hr hr' heq
    exact ⟨Text.ofNat_injective hnumeral, hrest⟩

/-- Nodes with semicolons between them. -/
theorem nodes_inj {ds ds' : List Document}
    (hds : ∀ d ∈ ds ++ ds', d.Readable false ∧ d.form = .node) {r r' : Text}
    (h : Text.join (utf8 ";") (ds.map (Document.toText true)) ++ (utf8 "|" ++ r) =
      Text.join (utf8 ";") (ds'.map (Document.toText true)) ++ (utf8 "|" ++ r')) :
    ds = ds' ∧ r = r' := by
  have hsemicolon : Text.Delimits (utf8 ";") (utf8 "|" <+: ·) fun _ => True := by
    refine ⟨fun _ => trivial, fun _ _ => trivial, fun r hr hsep => ?_⟩
    obtain ⟨t, rfl⟩ := hr
    exact absurd (List.cons_prefix_cons.mp hsep).1 (by decide)
  have hstart (d : Document) (hd : d ∈ ds ++ ds') (t : Text) :
      ¬ utf8 "|" <+: d.toText true ++ t := by
    rintro ⟨u, hu⟩
    obtain ⟨hread, hform⟩ := hds d hd
    cases d with
    | node kind fs =>
      rw [Document.toText_node, List.append_assoc] at hu
      exact hread.1.head?_ne (b := ascii '|') (by decide) _ (congrArg List.head? hu).symm
    | _ => exact nomatch hform
  have hwrite (d : Document) (hd : d ∈ ds) (d' : Document) (hd' : d' ∈ ds') :
      Text.Determined (fun _ => True) (Document.toText true) d d' := by
    intro r r' _ _ heq
    obtain ⟨hread, hform⟩ := hds d (List.mem_append_left _ hd)
    obtain ⟨hread', hform'⟩ := hds d' (List.mem_append_right _ hd')
    exact Document.legible_readable.append_inj_of_form hread hread' hform hform' heq
  obtain ⟨hsame, hrest⟩ := hsemicolon.join_inj (List.prefix_append _ r) (List.prefix_append _ r')
    hstart hwrite h
  exact ⟨hsame, List.append_cancel_left hrest⟩

/-- The entries of the block are lawful. -/
def Block.Lawful (b : Block) : Prop := ∀ e ∈ b.entries, e.Lawful

namespace Block

variable {cfg cfg' : Normal.Config} {a b : Block}

theorem Lawful.texts_eq (h : a.Lawful) (cfg : Normal.Config) :
    a.entries.map (Entry.text cfg) =
      (a.entries.map (Entry.document cfg)).map (Document.toText true) := by
  rw [List.map_map]
  exact List.map_congr_left fun e he => Entry.text_eq cfg (h e he)

theorem Lawful.of_mem_documents (h : a.Lawful) {d : Document}
    (hd : d ∈ a.entries.map (Entry.document cfg)) : d.Readable false ∧ d.form = .node := by
  obtain ⟨e, he, rfl⟩ := List.mem_map.mp hd
  exact ⟨Entry.readable_document cfg (h e he), Entry.form_document cfg e⟩

/-- The text of a block determines what it shows and where it leads. -/
theorem same_of_text_eq (ha : a.Lawful) (hb : b.Lawful) (i : Nat) {r r' : Text} (hr : Closes r)
    (hr' : Closes r') (h : a.text cfg i ++ r = b.text cfg' i ++ r') :
    a.Same cfg cfg' b ∧ r = r' := by
  have hbar : utf8 "|SUCCESSORS:" = utf8 "|" ++ utf8 "SUCCESSORS:" := by decide
  rw [text, text, ha.texts_eq, hb.texts_eq, hbar] at h
  simp only [List.append_assoc, List.append_cancel_left_eq] at h
  have hnodes : ∀ d ∈ a.entries.map (Entry.document cfg) ++ b.entries.map (Entry.document cfg'),
      d.Readable false ∧ d.form = .node := by
    intro d hd
    exact (List.mem_append.mp hd).elim ha.of_mem_documents hb.of_mem_documents
  obtain ⟨hentries, hrest⟩ := nodes_inj hnodes h
  obtain ⟨hnext, hrest⟩ := successors_inj hr hr' (List.append_cancel_left hrest)
  refine ⟨⟨?_, hnext⟩, hrest⟩
  rw [ha.texts_eq, hb.texts_eq, hentries]

end Block

/-! ## Graphs -/

/-- Equally many blocks, which show the same texts and lead to the same blocks. -/
structure Graph.Same (cfg cfg' : Normal.Config) (g g' : Graph) : Prop where
  size : g.size = g'.size
  block (i : Nat) : (g.block i).Same cfg cfg' (g'.block i)

/-- The entries of all blocks are lawful. -/
def Graph.Lawful (g : Graph) : Prop := ∀ i, (g.block i).Lawful

variable {cfg cfg' : Normal.Config}

/-- Texts of blocks with a bar in front of each. -/
theorem same_of_barred_eq (n : Nat) {as bs : List Block} (has : ∀ a ∈ as, a.Lawful)
    (hbs : ∀ b ∈ bs, b.Lawful) (h : (blockTexts cfg n as).flatMap (utf8 "|" ++ ·) =
      (blockTexts cfg' n bs).flatMap (utf8 "|" ++ ·)) : List.Forall₂ (Block.Same cfg cfg') as bs := by
  have hcloses (cfg : Normal.Config) (n : Nat) (bs : List Block) :
      Closes ((blockTexts cfg n bs).flatMap (utf8 "|" ++ ·)) := by
    cases bs with
    | nil => exact fun b hb => by cases hb
    | cons b bs =>
      rw [blockTexts, List.flatMap_cons, List.append_assoc]
      exact closes_bar _
  induction as generalizing n bs with
  | nil =>
    cases bs with
    | nil => exact .nil
    | cons b bs => cases h
  | cons a as ih =>
    cases bs with
    | nil => cases h
    | cons b bs =>
      simp only [blockTexts, List.flatMap_cons, List.append_assoc] at h
      obtain ⟨ha, has⟩ := List.forall_mem_cons.mp has
      obtain ⟨hb, hbs⟩ := List.forall_mem_cons.mp hbs
      obtain ⟨hsame, hrest⟩ := Block.same_of_text_eq ha hb n (hcloses _ _ _) (hcloses _ _ _)
        (List.append_cancel_left h)
      exact .cons hsame (ih (n + 1) has hbs hrest)

namespace Graph

variable {g g' : Graph}

theorem Lawful.of_mem (h : g.Lawful) {b : Block} (hb : b ∈ g.blocks.toList) : b.Lawful := by
  obtain ⟨i, hi, rfl⟩ := List.mem_iff_getElem.mp hb
  have hblock := h i
  rwa [block, Array.getElem?_eq_getElem hi] at hblock

theorem same_of_forall₂
    (h : List.Forall₂ (Block.Same cfg cfg') g.blocks.toList g'.blocks.toList) :
    g.Same cfg cfg' g' := by
  have hlength : g.size = g'.size := h.length_eq
  refine ⟨hlength, fun i => ?_⟩
  by_cases hi : i < g.size
  · have hi' : i < g'.size := hlength ▸ hi
    rw [block, block, Array.getElem?_eq_getElem hi, Array.getElem?_eq_getElem hi']
    exact (List.forall₂_iff_get.mp h).2 i hi hi'
  · rw [block_of_size_le (Nat.le_of_not_lt hi), block_of_size_le (hlength ▸ Nat.le_of_not_lt hi)]
    exact ⟨rfl, rfl⟩

/-- The text of a graph determines its blocks as far as the text shows them. -/
theorem same_of_text_eq (hg : g.Lawful) (hg' : g'.Lawful) (h : g.text cfg = g'.text cfg') :
    g.Same cfg cfg' g' := by
  have hbarred (cfg : Normal.Config) (g : Graph) (hne : g.blocks.toList ≠ []) :
      utf8 "|" ++ g.text cfg = (blockTexts cfg 0 g.blocks.toList).flatMap (utf8 "|" ++ ·) := by
    obtain ⟨b, bs, hbs⟩ := List.exists_cons_of_ne_nil hne
    rw [text, hbs, blockTexts, Text.join_cons, List.flatMap_cons, List.append_assoc]
  have hempty (cfg : Normal.Config) (g : Graph) (h : g.text cfg = []) : g.blocks.toList = [] := by
    by_contra hne
    obtain ⟨b, bs, hbs⟩ := List.exists_cons_of_ne_nil hne
    rw [text, hbs, blockTexts, Text.join_cons, Block.text] at h
    simp only [List.append_assoc] at h
    exact absurd (List.append_eq_nil_iff.mp h).1 (by decide)
  have hnil (cfg : Normal.Config) (g : Graph) (h : g.blocks.toList = []) : g.text cfg = [] := by
    rw [text, h]
    rfl
  apply same_of_forall₂
  by_cases hne : g.blocks.toList = []
  · have hne' := hempty cfg' g' (h.symm.trans (hnil cfg g hne))
    rw [hne, hne']
    exact .nil
  · have hne' : g'.blocks.toList ≠ [] := fun h' => hne (hempty cfg g (h.trans (hnil cfg' g' h')))
    refine same_of_barred_eq 0 (fun _ => hg.of_mem) (fun _ => hg'.of_mem) ?_
    rw [← hbarred cfg g hne, ← hbarred cfg' g' hne', h]

end Graph

/-! ## Graphs under construction -/

namespace Graph.Lawful

variable {g : Graph}

theorem create (h : g.Lawful) : g.create.Lawful := by
  intro i
  rw [block_create]
  exact h i

theorem modify (h : g.Lawful) (i : Nat) {f : Block → Block}
    (hf : ∀ b : Block, b.Lawful → (f b).Lawful) : (g.modify i f).Lawful := by
  intro j
  by_cases hij : j = i
  · subst hij
    by_cases hj : j < g.size
    · rw [block_modify_self f hj]
      exact hf _ (h j)
    · rw [block_of_size_le (by simpa using hj)]
      exact fun e he => nomatch he
  · rw [block_modify_of_ne f hij]
    exact h j

theorem edge (h : g.Lawful) (i j : Nat) : (g.edge i j).Lawful := by
  rw [Graph.edge]
  split
  · exact h.modify i fun b hb => hb
  · exact h

theorem append (h : g.Lawful) (i : Nat) {e : Entry} (he : e.Lawful) : (g.append i e).Lawful := by
  refine h.modify i fun _ hb e' he' => ?_
  rcases List.mem_append.mp he' with he' | he'
  · exact hb e' he'
  · rw [List.mem_singleton.mp he']
    exact he

theorem terminate (h : g.Lawful) (i : Nat) : (g.terminate i).Lawful := h.modify i fun _ hb => hb

end Graph.Lawful

/-- The graph has lawful entries so far. -/
structure Builder.Lawful (b : Builder) : Prop where
  graph : b.graph.Lawful

namespace Builder.Lawful

variable {b : Builder}

theorem create (h : b.Lawful) (n : Nat) : (b.create n).Lawful := by
  induction n generalizing b with
  | zero => exact h
  | succ n ih => exact ih ⟨h.graph.create⟩

theorem goto (h : b.Lawful) (i : Nat) : (b.goto i).Lawful := ⟨h.graph⟩

theorem edge (h : b.Lawful) (i j : Nat) : (b.edge i j).Lawful := ⟨h.graph.edge i j⟩

theorem append (h : b.Lawful) (i : Nat) {e : Entry} (he : e.Lawful) : (b.append i e).Lawful :=
  ⟨h.graph.append i he⟩

theorem flowTo (h : b.Lawful) (i : Nat) : (b.flowTo i).Lawful := by
  rw [Builder.flowTo]
  split
  · exact h
  · exact h.edge _ _

theorem jump (h : b.Lawful) {s : Stmt} (hs : Every.stmt Node.Lawful s) (i : Nat) :
    (b.jump s i).Lawful :=
  ⟨((h.graph.append (e := .stmt s) _ hs).terminate _).edge _ _⟩

theorem orSkip (skip : Bool) {f : Builder → Builder}
    (hf : ∀ {c : Builder}, c.Lawful → (f c).Lawful) (h : b.Lawful) : (if skip then b else f b).Lawful := by
  split
  · exact h
  · exact hf h

theorem appendRemarks (h : b.Lawful) (i : Nat) {remarks : List Text}
    (hremarks : ∀ t ∈ remarks, Utf8.IsEncoded t) : (b.appendRemarks i remarks).Lawful := by
  induction remarks generalizing b with
  | nil => exact h
  | cons t remarks ih =>
    obtain ⟨ht, hremarks⟩ := List.forall_mem_cons.mp hremarks
    exact ih (h.append (e := .remark t) i ht) hremarks

theorem operands (h : b.Lawful) (op : BoolOp) (yes no i : Nat) {es : List Expr}
    (hes : Every.exprs Node.Lawful es) : (b.operands op yes no i es).Lawful := by
  fun_induction Builder.operands op yes no i es b with
  | case1 => exact h
  | case2 i e b => exact ((h.append (e := .expr e) i hes.1).edge i yes).edge i no
  | case3 i e rest b hrest next early b₂ ih =>
    exact ih ((((h.append (e := .expr e) i hes.1).create 1).edge i next).edge i early) hes.2

theorem single (h : b.Lawful) {e : Expr} (he : Every.expr Node.Lawful e) (i yes no : Nat) :
    (((b.append i (.expr e)).edge i yes).edge i no).Lawful :=
  ((h.append (e := .expr e) i he).edge i yes).edge i no

theorem condition (h : b.Lawful) {test : Expr} (htest : Every.expr Node.Lawful test)
    (yes no : Nat) : (b.condition test yes no).Lawful := by
  unfold Builder.condition
  split
  · exact h.operands _ yes no _ htest.2
  · exact h.single htest _ yes no

/-- Types of handlers are written as documents. -/
theorem handlerTests (h : b.Lawful) (done i test body : Nat) {hs : List Handler}
    (hhs : Every.handlers Node.Lawful hs) : (b.handlerTests done i test body hs).Lawful := by
  induction hs generalizing i test body b with
  | nil => exact h
  | cons handler rest ih =>
    obtain ⟨type, id, stmts⟩ := handler
    rw [Builder.handlerTests]
    refine ih (((h.appendRemarks test ?_).edge test body).edge test _) _ _ _ hhs.2.2
    have htype : Utf8.IsEncoded (type.elim (utf8 "BARE") (Dump.exprText false)) := by
      cases type with
      | none => exact .of_ascii (by decide)
      | some e => exact Document.isEncoded_toText false (Dump.readable_expr hhs.1)
    simp only [Builder.handlerRemarks, List.forall_mem_cons]
    exact ⟨.append (.of_ascii (by decide)) (Text.isBare_ofNat i).isEncoded,
      .append (.of_ascii (by decide)) htype, by simp⟩

theorem withItems (h : b.Lawful) {items : List WithItem} (hitems : Every.withItems Node.Lawful items) :
    (items.foldl (fun b w => b.append b.current (.expr w.context)) b).Lawful := by
  induction items generalizing b with
  | nil => exact h
  | cons w items ih =>
    obtain ⟨hw, hitems⟩ := List.forall_mem_cons.mp hitems
    exact ih (h.append (e := .expr w.context) _ hw.1) hitems

theorem caseRemarks (i : Nat) {p : Pattern} (hp : Every.pattern Node.Lawful p) :
    ∀ t ∈ Builder.caseRemarks i p, Utf8.IsEncoded t := by
  have hpattern : Utf8.IsEncoded (Dump.patternText false p) :=
    Document.isEncoded_toText false (Dump.readable_pattern hp)
  simp only [Builder.caseRemarks, List.forall_mem_cons]
  exact ⟨.append (.of_ascii (by decide)) (Text.isBare_ofNat i).isEncoded,
    .append (.of_ascii (by decide)) hpattern, by simp⟩

end Builder.Lawful

mutual

theorem lawful_stmt (loop : Option Loop) {s : Stmt} (hs : Every.stmt Node.Lawful s) {b : Builder}
    (h : b.Lawful) : (Builder.stmt loop s b).Lawful := by
  cases s
  case ret x value =>
    rw [Builder.stmt]
    exact h.jump hs _
  case raise x exc cause =>
    rw [Builder.stmt]
    exact h.jump hs _
  case breakLoop x =>
    rw [Builder.stmt]
    exact h.jump hs _
  case continueLoop x =>
    rw [Builder.stmt]
    exact h.jump hs _
  case branch x test body orelse =>
    simp only [Builder.stmt]
    apply Builder.Lawful.goto
    apply Builder.Lawful.flowTo
    apply lawful_stmts loop hs.2.2.2
    apply Builder.Lawful.goto
    apply Builder.Lawful.flowTo
    apply lawful_stmts loop hs.2.2.1
    exact ((h.create 3).condition hs.2.1 _ _).goto _
  case whileLoop x test body orelse =>
    simp only [Builder.stmt]
    apply Builder.Lawful.goto
    refine .orSkip orelse.isEmpty (fun hc => (lawful_stmts loop hs.2.2.2 (hc.goto _)).flowTo _) ?_
    apply Builder.Lawful.flowTo
    apply lawful_stmts _ hs.2.2.1
    apply Builder.Lawful.goto
    exact (((h.create _).edge _ _).goto _).condition hs.2.1 _ _
  case forLoop x isAsync target iter body orelse =>
    simp only [Builder.stmt]
    apply Builder.Lawful.goto
    refine .orSkip orelse.isEmpty (fun hc => (lawful_stmts loop hs.2.2.2.2 (hc.goto _)).flowTo _) ?_
    apply Builder.Lawful.flowTo
    apply lawful_stmts _ hs.2.2.2.1
    apply Builder.Lawful.goto
    exact ((h.create _).edge _ _).single hs.2.2.1 _ _ _
  case withBlock x isAsync items body =>
    simp only [Builder.stmt]
    apply Builder.Lawful.goto
    apply Builder.Lawful.flowTo
    apply lawful_stmts loop hs.2.2
    exact (((h.create 2).withItems hs.2.1).edge _ _).goto _
  case tryBlock x isStar body handlers orelse finalbody =>
    simp only [Builder.stmt]
    apply lawful_stmts loop hs.2.2.2.2
    apply Builder.Lawful.goto
    refine .orSkip orelse.isEmpty (fun hc => (lawful_stmts loop hs.2.2.2.1 (hc.goto _)).flowTo _) ?_
    apply lawful_handlerBodies loop _ _ hs.2.2.1
    apply Builder.Lawful.flowTo
    apply lawful_tryStmts loop _ hs.2.1
    exact (((h.create _).edge _ _).goto _).handlerTests _ _ _ _ hs.2.2.1
  case matchBlock x subject cs =>
    simp only [Builder.stmt]
    apply Builder.Lawful.goto
    apply lawful_cases loop _ _ _ hs.2.2
    exact (h.append (e := .expr subject) _ hs.2.1).create 1
  all_goals
    rw [Builder.stmt]
    · exact h.append (e := .stmt _) _ hs
    all_goals simp

theorem lawful_stmts (loop : Option Loop) {ss : List Stmt} (hss : Every.stmts Node.Lawful ss)
    {b : Builder} (h : b.Lawful) : (Builder.stmts loop ss b).Lawful := by
  cases ss with
  | nil => exact h
  | cons s rest =>
    rw [Builder.stmts]
    exact .orSkip _ (fun hc => lawful_stmts loop hss.2 (lawful_stmt loop hss.1 hc)) h

theorem lawful_tryStmts (loop : Option Loop) (test : Option Nat) {ss : List Stmt}
    (hss : Every.stmts Node.Lawful ss) {b : Builder} (h : b.Lawful) :
    (Builder.tryStmts loop test ss b).Lawful := by
  cases ss with
  | nil => exact h
  | cons s rest =>
    rw [Builder.tryStmts.eq_def]
    dsimp only
    split
    · exact h
    · refine lawful_tryStmts loop test hss.2 (lawful_stmt loop hss.1 ?_)
      split
      · split
        · exact h.edge _ _
        · exact h
      · exact h

theorem lawful_handlerBodies (loop : Option Loop) (done i : Nat) : ∀ {hs : List Handler},
    Every.handlers Node.Lawful hs → ∀ {b : Builder}, b.Lawful →
      (Builder.handlerBodies loop done i hs b).Lawful
  | [], _, _, h => h
  | .mk _ _ _ :: _, hhs, _, h => by
    rw [Builder.handlerBodies]
    exact lawful_handlerBodies loop done (i + 1) hhs.2.2
      ((lawful_stmts loop hhs.2.1 (h.goto i)).flowTo done)

theorem lawful_cases (loop : Option Loop) (done i before : Nat) : ∀ {cs : List MatchCase},
    Every.cases Node.Lawful cs → ∀ {b : Builder}, b.Lawful →
      (Builder.cases loop done i before cs b).Lawful
  | [], _, _, h => h.edge before done
  | .mk p guard body :: rest, hcs, b, h => by
    rw [Builder.cases]
    have htest := ((h.create 2).edge before b.graph.size).appendRemarks b.graph.size
      (Builder.Lawful.caseRemarks i hcs.1)
    refine lawful_cases loop done (i + 1) _ hcs.2.2.2
      ((lawful_stmts loop hcs.2.2.1 ((Builder.Lawful.edge ?_ _ _).goto _)).flowTo done)
    cases guard with
    | none => exact htest
    | some e => exact htest.append (e := .expr e) _ hcs.2.1

end

/-- The graph of lawful statements has lawful entries. -/
theorem Graph.lawful_ofBody {body : List Stmt} (h : Every.stmts Node.Lawful body) :
    (Graph.ofBody body).Lawful := by
  have hstart : ({} : Builder).Lawful := by
    refine ⟨fun i e he => ?_⟩
    rw [show ({} : Builder).graph.block i = {} from Graph.block_empty i] at he
    exact nomatch he
  exact ((lawful_stmts none h hstart).flowTo exitBlock).graph

end CloneScout.Flow
