import CloneScout.Grammar.Target
import CloneScout.Normal.Basic
import CloneScout.Proofs.Text.Basic
import CloneScout.Proofs.Text.Utf8
import CloneScout.Proofs.Tree.Every
import CloneScout.Token.Number

/-!
# Lawful trees

What is true of every tree that is read from a source text without a fault and does not depend on
the text: identifiers are words, text constants are sequences of code points, default values come
last among the parameters, and what an augmented assignment changes is a name, an attribute or a
subscript.
-/

namespace CloneScout

namespace Text

/-- The text has the bytes of an identifier. -/
def IsWord (t : Text) : Prop := Utf8.IsEncoded t ∧ ∀ b ∈ t, Token.isIdentPart b = true

/-- The text has the bytes of a module name or is a star. -/
def IsPath (t : Text) : Prop :=
  Utf8.IsEncoded t ∧ ∀ b ∈ t, Token.isIdentPart b = true ∨ b = ascii '.' ∨ b = ascii '*'

theorem IsWord.isPath {t : Text} (h : IsWord t) : IsPath t := ⟨h.1, fun b hb => .inl (h.2 b hb)⟩

theorem IsWord.isMeta_eq_false {t : Text} (h : IsWord t) : Normal.isMeta t = false := by
  rw [Bool.eq_false_iff]
  intro hmeta
  have hstarts : Normal.metaMark <+: t := startsWith_iff.mp hmeta
  have hcolon : ascii ':' ∈ t := hstarts.subset (by decide)
  have hpart : Token.isIdentPart (ascii ':') = true := h.2 _ hcolon
  revert hpart
  decide

end Text

/-- Text constants are sequences of code points. -/
def Constant.Lawful : Constant → Prop
  | .text value _ => Utf8.IsEncoded value
  | _ => True

def Param.name : Param → Text
  | .mk id _ _ => id

def Param.default : Param → Option Expr
  | .mk _ _ value => value

/-- Parameters are named by words, behind one with a default value all have one, and the collectors
of further arguments have none. -/
structure Params.Lawful (posOnly plain : List Param) (star : Option Param) (kwOnly : List Param)
    (doubleStar : Option Param) : Prop where
  names : ∀ p ∈ posOnly ++ plain ++ star.toList ++ kwOnly ++ doubleStar.toList, p.name.IsWord
  defaults : (posOnly ++ plain).Pairwise fun p q => p.default.isSome → q.default.isSome
  star : ∀ p ∈ star, p.default = none
  doubleStar : ∀ p ∈ doubleStar, p.default = none

def Keyword.arg : Keyword → Option Text
  | .mk arg _ => arg

def PatternKeyword.attr : PatternKeyword → Text
  | .mk attr _ => attr

def Handler.name : Handler → Option Text
  | .mk _ id _ => id

/-- An imported name and its new name. -/
def Alias.Lawful (a : Alias) : Prop := a.name.IsPath ∧ ∀ id ∈ a.asName, id.IsWord

/-- What a node says by itself, apart from its parts. -/
def Node.Lawful : Node → Prop
  | .expr (.name _ id _) => id.IsWord
  | .expr (.attribute _ _ attr _) => attr.IsWord
  | .expr (.constant _ c) => c.Lawful
  | .expr (.call _ _ _ kws) => ∀ k ∈ kws, ∀ id ∈ k.arg, id.IsWord
  | .expr (.lambda _ (.mk posOnly plain star kwOnly doubleStar) _) =>
    Params.Lawful posOnly plain star kwOnly doubleStar
  | .pattern (.mapping _ _ rest) => ∀ id ∈ rest, id.IsWord
  | .pattern (.cls _ _ _ kws) => ∀ k ∈ kws, k.attr.IsWord
  | .pattern (.star _ id) => ∀ t ∈ id, t.IsWord
  | .pattern (.as _ _ id) => ∀ t ∈ id, t.IsWord
  | .stmt (.function _ _ id (.mk posOnly plain star kwOnly doubleStar) _ _ _) =>
    id.IsWord ∧ Params.Lawful posOnly plain star kwOnly doubleStar
  | .stmt (.classDef _ id _ kws _ _) => id.IsWord ∧ ∀ k ∈ kws, ∀ id ∈ k.arg, id.IsWord
  | .stmt (.augAssign _ target _ _) => Target.isSimple target = true
  | .stmt (.tryBlock _ _ _ hs _ _) => ∀ h ∈ hs, ∀ id ∈ h.name, id.IsWord
  | .stmt (.importNames _ names) => ∀ a ∈ names, a.Lawful
  | .stmt (.importFrom _ source names _) => (∀ t ∈ source, t.IsPath) ∧ ∀ a ∈ names, a.Lawful
  | .stmt (.global _ names) => ∀ id ∈ names, id.IsWord
  | .stmt (.nonlocal _ names) => ∀ id ∈ names, id.IsWord
  | _ => True

end CloneScout
