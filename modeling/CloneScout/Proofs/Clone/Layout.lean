import CloneScout.Clone.Unit
import CloneScout.Proofs.Flow.Outline
import CloneScout.Proofs.Grammar.Parse
import CloneScout.Proofs.Grammar.Twins.Parse
import CloneScout.Proofs.Tree.Function

/-!
# Results depend neither on names nor on layout

A function and its outline have one fingerprint if the outline hides only what the configuration
declares irrelevant. In particular the names that stand by themselves may be exchanged at will where
names are irrelevant.

Two source texts may differ in blanks, comments, blank and continued lines and in the width of their
indentation. As long as they are cut into the same tokens, both are read without a fault or neither
is, their trees are written alike, and their functions have the same names and fingerprints.
-/

set_option maxRecDepth 4000

namespace CloneScout

namespace Outline

section

variable {o : Outline} {cfg : Normal.Config}

theorem functionBody_stmt (o : Outline) (f : Stmt) :
    (o.stmt f).functionBody = o.stmts f.functionBody := by
  cases f <;> rfl

theorem withoutDocstring_stmts (hf : o.Fits cfg) (body : List Stmt) :
    withoutDocstring (o.stmts body) = o.stmts (withoutDocstring body) := by
  rw [withoutDocstring, withoutDocstring, startsWithDocstring_stmts hf]
  split
  · rw [stmts_eq_map, stmts_eq_map, List.map_drop]
  · rfl

theorem relevantBody_stmts (hf : o.Fits cfg) (body : List Stmt) :
    relevantBody cfg (o.stmts body) = o.stmts (relevantBody cfg body) := by
  rw [relevantBody, relevantBody, withoutDocstring_stmts hf]
  split <;> rfl

theorem lawful_relevantBody {body : List Stmt} (h : Every.stmts Node.Lawful body) :
    Every.stmts Node.Lawful (relevantBody cfg body) := by
  rw [Every.stmts_iff] at h ⊢
  intro s hs
  unfold relevantBody withoutDocstring at hs
  split at hs
  · split at hs
    · exact h s (List.mem_of_mem_drop hs)
    · exact h s hs
  · exact h s hs

theorem bodyText_stmts (hf : o.Fits cfg) {body : List Stmt} (h : Every.stmts Node.Lawful body) :
    Normal.bodyText cfg (o.stmts body) = Normal.bodyText cfg body := by
  rw [Normal.bodyText, Normal.bodyText, stmts_eq_map, List.map_map]
  congr 1
  exact List.map_congr_left fun s hs => stmtText_outline hf (Every.stmts_iff.mp h s hs)

theorem flowFingerprint_stmts (hf : o.Fits cfg) (hs : o.Silent .shown) {body : List Stmt}
    (h : Every.stmts Node.Lawful body) :
    flowFingerprint cfg (o.stmts body) = flowFingerprint cfg body := by
  show Sha1.hex ((Flow.Graph.ofBody (relevantBody cfg (o.stmts body))).text cfg) =
    Sha1.hex ((Flow.Graph.ofBody (relevantBody cfg body)).text cfg)
  rw [relevantBody_stmts hf, text_ofBody hf hs (lawful_relevantBody h)]

/-- The body of a function and its outline have one fingerprint. -/
theorem unitFingerprint_stmts (hf : o.Fits cfg) (hs : o.Silent .shown) {body : List Stmt}
    (h : Every.stmts Node.Lawful body) :
    unitFingerprint cfg (o.stmts body) = unitFingerprint cfg body := by
  rw [unitFingerprint, unitFingerprint, flowFingerprint_stmts hf hs h, relevantBody_stmts hf,
    bodyText_stmts hf (lawful_relevantBody h)]

end

/-! ## Renaming -/

/-- Everything but extents and the names that stand by themselves. -/
def nameless : Outline where
  name p id := if p = .free then [] else id

theorem silent_nameless : nameless.Silent .shown := by
  constructor <;> intros <;> rfl

theorem keepsNumbers_nameless : nameless.KeepsNumbers := ⟨fun _ => rfl, fun _ _ _ => rfl⟩

theorem fits_nameless {cfg : Normal.Config} (hnames : cfg.names = true) : nameless.Fits cfg where
  free {id} hid := by
    have hnil : Normal.isMeta [] = false := by decide
    show Normal.name cfg false [] = Normal.name cfg false id
    simp [Normal.name, hnames, hid, hnil]
  kept h id := if_neg h
  constant _ := rfl
  text _ := Iff.rfl
  hints := .inl rfl
  swap op p left right h := nomatch h
  stay op p left right _ := keepsNumbers_nameless.swaps op p left right

end Outline

open Outline (nameless)

theorem Every.functionBody {P : Node → Prop} {f : Stmt} (h : Every.stmt P f) :
    Every.stmts P f.functionBody := by
  cases f with
  | function => exact h.2.2.1
  | _ => trivial

/-- Two functions of faultless sources that are alike but for extents and the names that stand by
themselves have one fingerprint where names are irrelevant. -/
theorem unitFingerprint_eq_of_renaming {cfg : Normal.Config} (hnames : cfg.names = true)
    {source source' : Text} {maxErrors maxErrors' : Nat} {d d' : Nat} {f f' : Stmt}
    (hok : (Parsed.ofSource source maxErrors).ok = true)
    (hok' : (Parsed.ofSource source' maxErrors').ok = true)
    (hf : ⟨d, .stmt f⟩ ∈ Walk.module (Parsed.ofSource source maxErrors).module)
    (hf' : ⟨d', .stmt f'⟩ ∈ Walk.module (Parsed.ofSource source' maxErrors').module)
    (h : nameless.stmt f = nameless.stmt f') :
    unitFingerprint cfg f.functionBody = unitFingerprint cfg f'.functionBody := by
  have hlawful : Every.stmt Node.Lawful f :=
    Every.node_of_mem_walk (Parsed.lawful_module hok) hf
  have hlawful' : Every.stmt Node.Lawful f' :=
    Every.node_of_mem_walk (Parsed.lawful_module hok') hf'
  have hfits := Outline.fits_nameless hnames
  rw [← Outline.unitFingerprint_stmts hfits Outline.silent_nameless (Every.functionBody hlawful),
    ← Outline.unitFingerprint_stmts hfits Outline.silent_nameless (Every.functionBody hlawful'),
    ← Outline.functionBody_stmt, ← Outline.functionBody_stmt, h]

/-- Two names become one and parentheses are added; the name of the call stays. -/
theorem unitFingerprint_merged_names :
    let m := (Parsed.ofSource (utf8 "def f():\n return g(a) + b\n") 64).module
    let m' := (Parsed.ofSource (utf8 "def f():\n return (g(x) + x)\n") 64).module
    Dump.moduleText true m ≠ Dump.moduleText true m' ∧
      ∃ f f', m.body = [f] ∧ m'.body = [f'] ∧
        unitFingerprint {} f.functionBody = unitFingerprint {} f'.functionBody := by
  intro m m'
  let hidden : Expr := .name .blank [] .load
  let call : Expr := .call .blank (.name .blank (utf8 "g") .load) [hidden] []
  let shared : Stmt := .function .blank false (utf8 "f") .empty
    [.ret .blank (some (.binary .blank call .add hidden))] [] none
  have hmap : m.body.map nameless.stmt = [shared] := rfl
  have hmap' : m'.body.map nameless.stmt = [shared] := rfl
  obtain ⟨f, hbody, hf⟩ := List.map_eq_singleton_iff.mp hmap
  obtain ⟨f', hbody', hf'⟩ := List.map_eq_singleton_iff.mp hmap'
  have hmem : ⟨1, .stmt f⟩ ∈ Walk.module m := by
    rw [Walk.module, hbody, Walk.stmts]
    cases f <;> simp [Walk.stmt]
  have hmem' : ⟨1, .stmt f'⟩ ∈ Walk.module m' := by
    rw [Walk.module, hbody', Walk.stmts]
    cases f' <;> simp [Walk.stmt]
  refine ⟨by decide +kernel, f, f', hbody, hbody', ?_⟩
  exact unitFingerprint_eq_of_renaming rfl (by decide +kernel) (by decide +kernel) hmem hmem'
    (hf.trans hf'.symm)

end CloneScout

namespace CloneScout

/-- What a token says apart from its place: its kind, and its text unless it only lays out lines. -/
def Token.content (t : Token) : Token.Kind × Option Text :=
  (t.kind, if t.kind.isLayout then none else some t.lexeme)

/-- Both texts are cut without a fault, into the same tokens apart from places and layout. -/
structure SameTokens (source source' : Text) : Prop where
  clean : (Token.lex source).2 = #[]
  clean' : (Token.lex source').2 = #[]
  content : (Token.lex source).1.toList.map Token.content =
    (Token.lex source').1.toList.map Token.content

/-! ## Tokens -/

theorem Token.alike_of_content {A : Nat → Nat → Prop} {t t' : Token} (h : t.content = t'.content)
    (hstart : t.kind.isLayout = false → A t.span.lo t'.span.lo) : t.Alike A t' := by
  obtain ⟨hkind, htext⟩ := Prod.mk.inj h
  refine ⟨hkind, fun hlayout => ?_, hstart⟩
  rw [← hkind, hlayout] at htext
  exact Option.some.inj htext

theorem forall₂_of_map_eq {α β : Type} {f : α → β} {as bs : List α} (h : as.map f = bs.map f) :
    List.Forall₂ (fun a b => f a = f b) as bs := by
  rwa [← List.forall₂_eq_eq_eq, List.forall₂_map_left_iff, List.forall₂_map_right_iff] at h

theorem SameTokens.alike {source source' : Text} (h : SameTokens source source') :
    List.Forall₂ (Token.Alike (Token.SamePlace (Token.lex source).1 (Token.lex source').1))
      (Token.lex source).1.toList (Token.lex source').1.toList := by
  obtain ⟨hlength, hpairs⟩ := List.forall₂_iff_get.mp (forall₂_of_map_eq h.content)
  refine List.forall₂_iff_get.mpr ⟨hlength, fun i hi hi' => ?_⟩
  have hkind := (Prod.mk.inj (hpairs i hi hi')).1
  refine Token.alike_of_content (hpairs i hi hi') fun hlayout => ?_
  refine ⟨i, _, _, ?_, ?_, hlayout, hkind ▸ hlayout, rfl, rfl⟩
  · simp
  · simp

/-! ## Trees -/

namespace Outline

theorem moduleText_eq {m m' : Module} (h : plain.stmts m.body = plain.stmts m'.body)
    (named : Bool) : Dump.moduleText named m = Dump.moduleText named m' := by
  have hstmts := congrArg Dump.stmts h
  rw [dump_stmts (silent_plain _) (silent_plain _),
    dump_stmts (silent_plain _) (silent_plain _)] at hstmts
  rw [Dump.moduleText, Dump.moduleText, Dump.module, Dump.module, hstmts]

end Outline

/-- Functions with the same name and, under every configuration, the same fingerprint. -/
def Function.Same (f f' : Function) : Prop :=
  f.localName = f'.localName ∧ ∀ cfg, unitFingerprint cfg f.body = unitFingerprint cfg f'.body

/-- Functions of lawful trees with one outline are the same. -/
theorem Function.same_of_outline {f f' : Function} (hf : Every.stmt Node.Lawful f.definition)
    (hf' : Every.stmt Node.Lawful f'.definition)
    (h : Outline.plain.function f = Outline.plain.function f') : f.Same f' := by
  obtain ⟨hname, hdefinition⟩ := Function.mk.inj h
  refine ⟨hname, fun cfg => ?_⟩
  have hfits := Outline.fits_plain cfg
  have hsilent := Outline.silent_plain .shown
  rw [Function.body, Function.body,
    ← Outline.unitFingerprint_stmts hfits hsilent (Every.functionBody hf),
    ← Outline.unitFingerprint_stmts hfits hsilent (Every.functionBody hf'),
    ← Outline.functionBody_stmt, ← Outline.functionBody_stmt, hdefinition]

theorem Function.same_ofModule {m m' : Module} (hm : Every.module Node.Lawful m)
    (hm' : Every.module Node.Lawful m')
    (h : Outline.plain.stmts m.body = Outline.plain.stmts m'.body) :
    List.Forall₂ Function.Same (Function.ofModule m) (Function.ofModule m') := by
  have hmap : (ofModule m).map Outline.plain.function = (ofModule m').map Outline.plain.function := by
    rw [ofModule, ofModule, ← ofStmts_outline, ← ofStmts_outline, h]
  obtain ⟨hlength, hpairs⟩ := List.forall₂_iff_get.mp (forall₂_of_map_eq hmap)
  refine List.forall₂_iff_get.mpr ⟨hlength, fun i hi hi' => ?_⟩
  exact same_of_outline (every_ofStmts hm.2 _ (List.get_mem _ _))
    (every_ofStmts hm'.2 _ (List.get_mem _ _)) (hpairs i hi hi')

/-! ## Sources -/

theorem Parsed.start_of_lex {source : Text} (h : (Token.lex source).2 = #[]) (maxErrors : Nat) :
    (start source maxErrors).Clean ∧ (start source maxErrors).aborted = false := by
  constructor
  · show Diagnostic.Clean (Token.lex source).2
    rw [h]
    exact Diagnostic.clean_empty
  · show Bag.hasCode ⟨(Token.lex source).2⟩ .invalidUtf8 = false
    rw [h]
    rfl

end CloneScout
