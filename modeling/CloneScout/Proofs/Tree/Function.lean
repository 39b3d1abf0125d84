import CloneScout.Proofs.Tree.Every
import CloneScout.Proofs.Tree.Outline
import CloneScout.Tree.Function

/-!
# Functions of a module and their outlines

The functions of an outline are the outlines of the functions, and what holds everywhere in a module
holds everywhere in its functions.
-/

namespace CloneScout

/-- The outline of a function has the name of the function. -/
def Outline.function (o : Outline) (f : Function) : Function := ⟨f.localName, o.stmt f.definition⟩

namespace Function

mutual

theorem ofStmt_outline (o : Outline) (scope : List Text) (s : Stmt) :
    ofStmt scope (o.stmt s) = (ofStmt scope s).map o.function := by
  cases s with
  | function => rfl
  | classDef x name bases kws body decorators => exact ofStmts_outline o (scope ++ [name]) body
  | withBlock x isAsync items body => exact ofStmts_outline o scope body
  | branch x test body orelse =>
    simp [Outline.stmt, ofStmt, ofStmts_outline o scope body, ofStmts_outline o scope orelse]
  | whileLoop x test body orelse =>
    simp [Outline.stmt, ofStmt, ofStmts_outline o scope body, ofStmts_outline o scope orelse]
  | forLoop x isAsync target iter body orelse =>
    simp [Outline.stmt, ofStmt, ofStmts_outline o scope body, ofStmts_outline o scope orelse]
  | tryBlock x isStar body handlers orelse finalbody =>
    simp [Outline.stmt, ofStmt, ofStmts_outline o scope body, ofHandlers_outline o scope handlers,
      ofStmts_outline o scope orelse, ofStmts_outline o scope finalbody]
  | matchBlock x subject cases => exact ofCases_outline o scope cases
  | _ => rfl

theorem ofStmts_outline (o : Outline) (scope : List Text) (ss : List Stmt) :
    ofStmts scope (o.stmts ss) = (ofStmts scope ss).map o.function := by
  cases ss with
  | nil => rfl
  | cons s ss =>
    rw [Outline.stmts, ofStmts, ofStmts, List.map_append, ofStmt_outline o scope s,
      ofStmts_outline o scope ss]

theorem ofHandlers_outline (o : Outline) (scope : List Text) :
    ∀ hs : List Handler, ofHandlers scope (o.handlers hs) = (ofHandlers scope hs).map o.function
  | [] => rfl
  | .mk _ _ body :: rest => by
    rw [Outline.handlers, ofHandlers, ofHandlers, List.map_append, ofStmts_outline o scope body,
      ofHandlers_outline o scope rest]

theorem ofCases_outline (o : Outline) (scope : List Text) :
    ∀ cs : List MatchCase, ofCases scope (o.cases cs) = (ofCases scope cs).map o.function
  | [] => rfl
  | .mk _ _ body :: rest => by
    rw [Outline.cases, ofCases, ofCases, List.map_append, ofStmts_outline o scope body,
      ofCases_outline o scope rest]

end

mutual

theorem every_ofStmt {P : Node → Prop} {scope : List Text} {s : Stmt} (h : Every.stmt P s) :
    ∀ f ∈ ofStmt scope s, Every.stmt P f.definition := by
  cases s with
  | function => simpa [ofStmt] using h
  | classDef => exact every_ofStmts h.2.2.2.1
  | withBlock => exact every_ofStmts h.2.2
  | branch =>
    exact List.forall_mem_append.mpr ⟨every_ofStmts h.2.2.1, every_ofStmts h.2.2.2⟩
  | whileLoop =>
    exact List.forall_mem_append.mpr ⟨every_ofStmts h.2.2.1, every_ofStmts h.2.2.2⟩
  | forLoop =>
    exact List.forall_mem_append.mpr ⟨every_ofStmts h.2.2.2.1, every_ofStmts h.2.2.2.2⟩
  | tryBlock =>
    simp only [ofStmt, List.forall_mem_append]
    exact ⟨⟨⟨every_ofStmts h.2.1, every_ofHandlers h.2.2.1⟩, every_ofStmts h.2.2.2.1⟩,
      every_ofStmts h.2.2.2.2⟩
  | matchBlock => exact every_ofCases h.2.2
  | _ => exact fun f hf => absurd hf List.not_mem_nil

theorem every_ofStmts {P : Node → Prop} {scope : List Text} {ss : List Stmt}
    (h : Every.stmts P ss) : ∀ f ∈ ofStmts scope ss, Every.stmt P f.definition := by
  cases ss with
  | nil => exact fun f hf => absurd hf List.not_mem_nil
  | cons s ss => exact List.forall_mem_append.mpr ⟨every_ofStmt h.1, every_ofStmts h.2⟩

theorem every_ofHandlers {P : Node → Prop} {scope : List Text} :
    ∀ {hs : List Handler}, Every.handlers P hs →
      ∀ f ∈ ofHandlers scope hs, Every.stmt P f.definition
  | [], _ => fun _ hf => absurd hf List.not_mem_nil
  | .mk _ _ _ :: _, h =>
    List.forall_mem_append.mpr ⟨every_ofStmts h.2.1, every_ofHandlers h.2.2⟩

theorem every_ofCases {P : Node → Prop} {scope : List Text} :
    ∀ {cs : List MatchCase}, Every.cases P cs → ∀ f ∈ ofCases scope cs, Every.stmt P f.definition
  | [], _ => fun _ hf => absurd hf List.not_mem_nil
  | .mk _ _ _ :: _, h =>
    List.forall_mem_append.mpr ⟨every_ofStmts h.2.2.1, every_ofCases h.2.2.2⟩

end

end Function

end CloneScout
