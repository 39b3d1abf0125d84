import CloneScout.Flow.Builder

/-!
# Runs of structured statements

What a run of statements records, without any graph: a condition is evaluated and decides what comes
next, a loop evaluates its header before every iteration, and jumps leave the statements around
them. Values are not computed, so a condition may turn out either way.
-/

namespace CloneScout.Flow

abbrev Trace := List Entry

/-- How a run of statements ends: at their end, with a `break` or a `continue` that no loop among
them is meant by, or with a `return` or an exception. -/
inductive Outcome where
  | next
  | broken
  | continued
  | stopped
  deriving DecidableEq, Repr

/-- The traces of runs, with the ways they end. -/
abbrev Behaviour := Trace → Outcome → Prop

/-- The traces of evaluations of a condition, with the values it may have. -/
abbrev Test := Trace → Bool → Prop

namespace Test

/-- The condition records one entry. -/
def single (e : Expr) : Test := fun t _ => t = [.expr e]

/-- The value that decides a boolean operator before its last operand. -/
def early : BoolOp → Bool
  | .and => false
  | .or => true

/-- Operands are evaluated one after the other until the value is decided. -/
def operands (op : BoolOp) : List Expr → Test
  | [], _, _ => False
  | [e], t, _ => t = [.expr e]
  | e :: rest, t, v =>
    (t = [.expr e] ∧ v = early op) ∨ ∃ u, operands op rest u v ∧ t = .expr e :: u

def ofExpr : Expr → Test
  | .boolean _ op values => operands op values
  | e => single e

end Test

namespace Behaviour

/-- A run with one trace and one way to end. -/
def ends (t : Trace) (o : Outcome) : Behaviour := fun t' o' => t' = t ∧ o' = o

/-- What comes second is run unless what comes first jumps. -/
def seq (first second : Behaviour) : Behaviour := fun t o =>
  (first t o ∧ o ≠ .next) ∨ ∃ t₁ t₂, first t₁ .next ∧ second t₂ o ∧ t = t₁ ++ t₂

/-- The entries are recorded first. -/
def behind (es : Trace) (rest : Behaviour) : Behaviour := fun t o => ∃ u, rest u o ∧ t = es ++ u

def either (one other : Behaviour) : Behaviour := fun t o => one t o ∨ other t o

/-- The condition decides between two runs. -/
def choose (test : Test) (yes no : Behaviour) : Behaviour := fun t o =>
  ∃ t₁ v t₂, test t₁ v ∧ (if v then yes else no) t₂ o ∧ t = t₁ ++ t₂

/-- A loop. When its condition fails, the `else` part is run. -/
inductive repeats (test : Test) (body orelse : Behaviour) : Behaviour
  | exhausted {t u : Trace} {o : Outcome} (htest : test t false) (horelse : orelse u o) :
    repeats test body orelse (t ++ u) o
  | broken {t u : Trace} (htest : test t true) (hbody : body u .broken) :
    repeats test body orelse (t ++ u) .next
  | stopped {t u : Trace} (htest : test t true) (hbody : body u .stopped) :
    repeats test body orelse (t ++ u) .stopped
  | again {t u w : Trace} {o o' : Outcome} (htest : test t true) (hbody : body u o)
    (ho : o = .next ∨ o = .continued) (hrest : repeats test body orelse w o') :
    repeats test body orelse (t ++ (u ++ w)) o'

mutual

/-- The runs of a statement. What a `try` statement does is not described here. -/
def ofStmt : Stmt → Behaviour
  | .ret x value => ends [.stmt (.ret x value)] .stopped
  | .raise x exc cause => ends [.stmt (.raise x exc cause)] .stopped
  | .breakLoop x => ends [.stmt (.breakLoop x)] .broken
  | .continueLoop x => ends [.stmt (.continueLoop x)] .continued
  | .branch _ test body orelse => choose (.ofExpr test) (ofStmts body) (ofStmts orelse)
  | .whileLoop _ test body orelse => repeats (.ofExpr test) (ofStmts body) (ofStmts orelse)
  | .forLoop _ _ _ iter body orelse => repeats (.single iter) (ofStmts body) (ofStmts orelse)
  | .withBlock _ _ items body => behind (items.map fun w => .expr w.context) (ofStmts body)
  | .matchBlock _ subject cs => behind [.expr subject] (ofCases 0 cs)
  | .tryBlock .. => fun _ _ => False
  | s => ends [.stmt s] .next

def ofStmts : List Stmt → Behaviour
  | [] => ends [] .next
  | s :: rest => seq (ofStmt s) (ofStmts rest)

/-- The cases from number `i` on are tested in order, until one is chosen or none is left. -/
def ofCases (i : Nat) : List MatchCase → Behaviour
  | [] => ends [] .next
  | .mk p guard body :: rest =>
    behind ((Builder.caseRemarks i p).map .remark ++ guard.toList.map .expr)
      (either (ofStmts body) (ofCases (i + 1) rest))

end

end Behaviour

/-! ## Statements without `try` -/

mutual

/-- No `try` is run with the statement. It may stand in functions and classes that are defined. -/
def isTryFree : Stmt → Bool
  | .branch _ _ body orelse => areTryFree body && areTryFree orelse
  | .whileLoop _ _ body orelse => areTryFree body && areTryFree orelse
  | .forLoop _ _ _ _ body orelse => areTryFree body && areTryFree orelse
  | .withBlock _ _ _ body => areTryFree body
  | .matchBlock _ _ cs => haveTryFree cs
  | .tryBlock .. => false
  | _ => true

def areTryFree : List Stmt → Bool
  | [] => true
  | s :: rest => isTryFree s && areTryFree rest

def haveTryFree : List MatchCase → Bool
  | [] => true
  | .mk _ _ body :: rest => areTryFree body && haveTryFree rest

end

/-! ## Paths -/

/-- The traces of paths from a block to the exit: the entries of their blocks, one block after the
other. -/
inductive Graph.Path (g : Graph) : Nat → Trace → Prop
  | exit : g.Path exitBlock (g.block exitBlock).entries
  | step {i j : Nat} {t : Trace} (hj : j ∈ (g.block i).successors) (hpath : g.Path j t) :
    g.Path i ((g.block i).entries ++ t)

/-! ## Runs that go on -/

/-- What may follow a run, for each way it ends. -/
abbrev Sequel := Outcome → Trace → Prop

def Sequel.mk (next broken continued stopped : Trace → Prop) : Sequel
  | .next => next
  | .broken => broken
  | .continued => continued
  | .stopped => stopped

namespace Behaviour

/-- The traces of a run and of what follows it. -/
def into (p : Behaviour) (k : Sequel) (t : Trace) : Prop := ∃ t₁ o t₂, p t₁ o ∧ k o t₂ ∧ t = t₁ ++ t₂

/-- Only what may follow the ways in which a run ends matters. -/
theorem into_congr {p : Behaviour} {k k' : Sequel} {t : Trace}
    (h : ∀ t' o u, p t' o → (k o u ↔ k' o u)) : p.into k t ↔ p.into k' t := by
  constructor
  · rintro ⟨t₁, o, u, hp, hk, rfl⟩
    exact ⟨t₁, o, u, hp, (h t₁ o u hp).mp hk, rfl⟩
  · rintro ⟨t₁, o, u, hp, hk, rfl⟩
    exact ⟨t₁, o, u, hp, (h t₁ o u hp).mpr hk, rfl⟩

theorem into_ends {es : Trace} {o : Outcome} {k : Sequel} {t : Trace} :
    (ends es o).into k t ↔ ∃ u, k o u ∧ t = es ++ u := by
  constructor
  · rintro ⟨_, _, u, ⟨rfl, rfl⟩, hk, rfl⟩
    exact ⟨u, hk, rfl⟩
  · rintro ⟨u, hk, rfl⟩
    exact ⟨es, o, u, ⟨rfl, rfl⟩, hk, rfl⟩

theorem into_seq {p q : Behaviour} {k : Sequel} {t : Trace} :
    (seq p q).into k t ↔
      p.into (.mk (q.into k) (k .broken) (k .continued) (k .stopped)) t := by
  constructor
  · rintro ⟨_, o, u, ⟨hp, ho⟩ | ⟨t₁, t₂, hp, hq, rfl⟩, hk, rfl⟩
    · refine ⟨_, o, u, hp, ?_, rfl⟩
      cases o <;> first | exact absurd rfl ho | exact hk
    · exact ⟨t₁, .next, t₂ ++ u, hp, ⟨t₂, o, u, hq, hk, rfl⟩, by rw [List.append_assoc]⟩
  · rintro ⟨t₁, o, u, hp, hk, rfl⟩
    by_cases ho : o = .next
    · subst ho
      obtain ⟨t₂, o', u', hq, hk', rfl⟩ := hk
      exact ⟨t₁ ++ t₂, o', u', .inr ⟨t₁, t₂, hp, hq, rfl⟩, hk', by rw [List.append_assoc]⟩
    · refine ⟨t₁, o, u, .inl ⟨hp, ho⟩, ?_, rfl⟩
      cases o <;> first | exact absurd rfl ho | exact hk

theorem into_behind {es : Trace} {p : Behaviour} {k : Sequel} {t : Trace} :
    (behind es p).into k t ↔ ∃ u, p.into k u ∧ t = es ++ u := by
  constructor
  · rintro ⟨_, o, u, ⟨t₂, hp, rfl⟩, hk, rfl⟩
    exact ⟨t₂ ++ u, ⟨t₂, o, u, hp, hk, rfl⟩, by rw [List.append_assoc]⟩
  · rintro ⟨_, ⟨t₂, o, u, hp, hk, rfl⟩, rfl⟩
    exact ⟨es ++ t₂, o, u, ⟨t₂, hp, rfl⟩, hk, by rw [List.append_assoc]⟩

theorem into_either {p q : Behaviour} {k : Sequel} {t : Trace} :
    (either p q).into k t ↔ p.into k t ∨ q.into k t := by
  simp only [into, either, or_and_right, exists_or]

end Behaviour

/-- The traces that start with an evaluation of the condition. -/
def Test.into (test : Test) (yes no : Trace → Prop) (t : Trace) : Prop :=
  ∃ t₁ v t₂, test t₁ v ∧ (if v then yes t₂ else no t₂) ∧ t = t₁ ++ t₂

theorem Test.into_single {e : Expr} {yes no : Trace → Prop} {t : Trace} :
    (single e).into yes no t ↔ ∃ u, (yes u ∨ no u) ∧ t = [.expr e] ++ u := by
  constructor
  · rintro ⟨_, v, u, rfl, hrun, rfl⟩
    cases v with
    | false => exact ⟨u, .inr hrun, rfl⟩
    | true => exact ⟨u, .inl hrun, rfl⟩
  · rintro ⟨u, hyes | hno, rfl⟩
    · exact ⟨_, true, u, rfl, hyes, rfl⟩
    · exact ⟨_, false, u, rfl, hno, rfl⟩

theorem Test.into_operands_cons {op : BoolOp} {e e' : Expr} {rest : List Expr}
    {yes no : Trace → Prop} {t : Trace} :
    (operands op (e :: e' :: rest)).into yes no t ↔
      ∃ u, ((operands op (e' :: rest)).into yes no u ∨ if early op then yes u else no u) ∧
        t = [.expr e] ++ u := by
  constructor
  · rintro ⟨_, v, u, ⟨rfl, rfl⟩ | ⟨t₁, htest, rfl⟩, hrun, rfl⟩
    · exact ⟨u, .inr hrun, rfl⟩
    · exact ⟨t₁ ++ u, .inl ⟨t₁, v, u, htest, hrun, rfl⟩, rfl⟩
  · rintro ⟨_, ⟨t₁, v, u, htest, hrun, rfl⟩ | hrun, rfl⟩
    · exact ⟨.expr e :: t₁, v, u, .inr ⟨t₁, htest, rfl⟩, hrun, rfl⟩
    · exact ⟨[.expr e], early op, _, .inl ⟨rfl, rfl⟩, hrun, rfl⟩

theorem Test.operands_ne_nil {op : BoolOp} {es : List Expr} {t : Trace} {v : Bool}
    (h : operands op es t v) : t ≠ [] := by
  rcases es with _ | ⟨e, _ | ⟨e', rest⟩⟩
  · exact h.elim
  · rw [operands] at h
    simp [h]
  · obtain ⟨rfl, _⟩ | ⟨u, _, rfl⟩ := h <;> simp

theorem Test.ofExpr_ne_nil {e : Expr} {t : Trace} {v : Bool} (h : ofExpr e t v) : t ≠ [] := by
  unfold ofExpr at h
  split at h
  · exact operands_ne_nil h
  · rw [single] at h
    simp [h]

namespace Behaviour

theorem into_choose {test : Test} {yes no : Behaviour} {k : Sequel} {t : Trace} :
    (choose test yes no).into k t ↔ test.into (yes.into k) (no.into k) t := by
  constructor
  · rintro ⟨_, o, u, ⟨t₁, v, t₂, htest, hrun, rfl⟩, hk, rfl⟩
    refine ⟨t₁, v, t₂ ++ u, htest, ?_, by rw [List.append_assoc]⟩
    cases v <;> exact ⟨t₂, o, u, hrun, hk, rfl⟩
  · rintro ⟨t₁, v, _, htest, hrun, rfl⟩
    cases v <;> obtain ⟨t₂, o, u, hrun, hk, rfl⟩ := hrun
    · exact ⟨t₁ ++ t₂, o, u, ⟨t₁, false, t₂, htest, hrun, rfl⟩, hk, by rw [List.append_assoc]⟩
    · exact ⟨t₁ ++ t₂, o, u, ⟨t₁, true, t₂, htest, hrun, rfl⟩, hk, by rw [List.append_assoc]⟩

section

variable {test : Test} {body orelse : Behaviour} {k : Sequel} {L : Trace → Prop}

/-- One round of a loop with the given traces of further rounds. -/
def round (test : Test) (body orelse : Behaviour) (k : Sequel) (L : Trace → Prop) : Trace → Prop :=
  test.into (body.into (.mk L (k .next) L (k .stopped))) (orelse.into k)

theorem of_into_repeats (hL : ∀ t, round test body orelse k L t → L t) {t : Trace}
    (h : (repeats test body orelse).into k t) : L t := by
  obtain ⟨t₁, o, u, hrun, hk, rfl⟩ := h
  -- one rule of the loop at a time, the last one with the traces of the further rounds
  induction hrun with
  | exhausted htest horelse =>
    apply hL
    rw [List.append_assoc]
    exact ⟨_, false, _, htest, ⟨_, _, u, horelse, hk, rfl⟩, rfl⟩
  | broken htest hbody =>
    apply hL
    rw [List.append_assoc]
    exact ⟨_, true, _, htest, ⟨_, .broken, u, hbody, hk, rfl⟩, rfl⟩
  | stopped htest hbody =>
    apply hL
    rw [List.append_assoc]
    exact ⟨_, true, _, htest, ⟨_, .stopped, u, hbody, hk, rfl⟩, rfl⟩
  | again htest hbody ho _ ih =>
    apply hL
    rw [List.append_assoc, List.append_assoc]
    refine ⟨_, true, _, htest, ⟨_, _, _, hbody, ?_, rfl⟩, rfl⟩
    rcases ho with rfl | rfl <;> exact ih hk

theorem into_repeats_of (hne : ∀ t v, test t v → t ≠ [])
    (hL : ∀ t, L t → round test body orelse k L t) {t : Trace} (h : L t) :
    (repeats test body orelse).into k t := by
  -- every round records something, so what is left for the further rounds is shorter
  induction hlen : t.length using Nat.strongRecOn generalizing t with
  | _ n ih =>
    obtain ⟨t₁, v, _, htest, hrun, rfl⟩ := hL t h
    have hpos : 0 < t₁.length := List.length_pos_iff.mpr (hne t₁ v htest)
    rw [List.length_append] at hlen
    cases v with
    | false =>
      obtain ⟨t₂, o, u, horelse, hk, rfl⟩ := hrun
      exact ⟨t₁ ++ t₂, o, u, .exhausted htest horelse, hk, by rw [List.append_assoc]⟩
    | true =>
      obtain ⟨t₂, o, u, hbody, hk, rfl⟩ := hrun
      rw [List.length_append] at hlen
      have hagain (hu : L u) (ho : o = .next ∨ o = .continued) :
          (repeats test body orelse).into k (t₁ ++ (t₂ ++ u)) := by
        obtain ⟨w, o', u', hrest, hk', rfl⟩ := ih u.length (by omega) hu rfl
        exact ⟨_, o', u', .again htest hbody ho hrest, hk', by simp only [List.append_assoc]⟩
      cases o with
      | next => exact hagain hk (.inl rfl)
      | continued => exact hagain hk (.inr rfl)
      | broken => exact ⟨t₁ ++ t₂, .next, u, .broken htest hbody, hk, by rw [List.append_assoc]⟩
      | stopped =>
        exact ⟨t₁ ++ t₂, .stopped, u, .stopped htest hbody, hk, by rw [List.append_assoc]⟩

/-- The traces of a loop are the only ones that are made up of rounds. -/
theorem into_repeats_iff (hne : ∀ t v, test t v → t ≠ [])
    (hL : ∀ t, L t ↔ round test body orelse k L t) (t : Trace) :
    L t ↔ (repeats test body orelse).into k t :=
  ⟨into_repeats_of hne fun t => (hL t).mp, of_into_repeats fun t => (hL t).mpr⟩

end

end Behaviour

end CloneScout.Flow
