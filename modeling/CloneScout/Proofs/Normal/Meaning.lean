import CloneScout.Proofs.Normal.Origin
import CloneScout.Proofs.Tree.Outline
import Mathlib.Data.Int.Bitwise
import Mathlib.Logic.Function.Basic

/-!
# Normal forms and meaning

Integer expressions have a value in every environment, and lists of assignments lead from one
environment to another. Where nothing is erased, normal forms mean the same: operands that change
places belong to commutative operators, the opposite of a test holds when the test fails, and an
augmented assignment computes what the plain assignment does that it becomes.
-/

namespace CloneScout

/-- The configuration under which nothing is irrelevant. -/
def Normal.Config.literal : Normal.Config where
  ignoreDocstrings := false
  ignoreHints := false
  attributes := false
  constants := false
  names := false

namespace Meaning

/-- The values of names. -/
abbrev Env := Text → Int

/-- The tests about which nothing is known: membership and identity. -/
structure Tests where
  isIn : Int → Int → Bool
  is : Int → Int → Bool

/-! ## Operators -/

/-- The operators on integers. -/
def binary? : BinaryOp → Option (Int → Int → Int)
  | .add => some (· + ·)
  | .sub => some (· - ·)
  | .mult => some (· * ·)
  | .bitOr => some Int.lor
  | .bitAnd => some Int.land
  | .bitXor => some Int.xor
  | _ => none

def truth (b : Bool) : Int := if b then 1 else 0

def unary : UnaryOp → Int → Int
  | .plus, n => n
  | .minus, n => -n
  | .invert, n => Int.lnot n
  | .not, n => truth (n = 0)

def test (t : Tests) : CompareOp → Int → Int → Bool
  | .eq, a, b => a = b
  | .notEq, a, b => a ≠ b
  | .lt, a, b => a < b
  | .ltEq, a, b => a ≤ b
  | .gt, a, b => b < a
  | .gtEq, a, b => b ≤ a
  | .is, a, b => t.is a b
  | .isNot, a, b => !t.is a b
  | .isIn, a, b => t.isIn a b
  | .notIn, a, b => !t.isIn a b

/-- The value of the operator is settled by the value of an operand. -/
def settles (op : BoolOp) (n : Int) : Bool :=
  match op with
  | .and => n = 0
  | .or => n ≠ 0

/-! ## Values of expressions -/

mutual

/-- The value of an integer expression; there is none for other expressions. -/
def eval (t : Tests) (env : Env) : Expr → Option Int
  | .name _ id _ => some (env id)
  | .constant _ (.int n) => some n
  | .binary _ left op right =>
    (binary? op).bind fun f =>
      (eval t env left).bind fun a => (eval t env right).map fun b => f a b
  | .unary _ op operand => (eval t env operand).map (unary op)
  | .boolean _ op values => evalBoolean t env op values
  | .conditional _ test body orelse =>
    (eval t env test).bind fun n => if n = 0 then eval t env orelse else eval t env body
  | .compare _ left ops comparators =>
    if ops.length = comparators.length then
      (eval t env left).bind fun a => (evalChain t env a ops comparators).map truth
    else none
  | _ => none

/-- The value of operands that are evaluated until one settles the matter. -/
def evalBoolean (t : Tests) (env : Env) (op : BoolOp) : List Expr → Option Int
  | [] => none
  | e :: rest =>
    (eval t env e).bind fun n =>
      if rest.isEmpty || settles op n then some n else evalBoolean t env op rest

/-- Whether each value stands in its relation to the value before it. The first test that fails is
the last one made. -/
def evalChain (t : Tests) (env : Env) (a : Int) : List CompareOp → List Expr → Option Bool
  | op :: ops, e :: rest =>
    (eval t env e).bind fun b =>
      if test t op a b then evalChain t env b ops rest else some false
  | _, _ => some true

end

mutual

/-- Expressions made of names, integers and the operators on integers. -/
def IsInteger : Expr → Prop
  | .name _ _ _ => True
  | .constant _ c => ∃ n, c = .int n
  | .binary _ left op right => (binary? op).isSome = true ∧ IsInteger left ∧ IsInteger right
  | .unary _ _ operand => IsInteger operand
  | .boolean _ _ values => values ≠ [] ∧ AllInteger values
  | .conditional _ test body orelse => IsInteger test ∧ IsInteger body ∧ IsInteger orelse
  | .compare _ left ops comparators =>
    ops.length = comparators.length ∧ IsInteger left ∧ AllInteger comparators
  | _ => False

def AllInteger : List Expr → Prop
  | [] => True
  | e :: rest => IsInteger e ∧ AllInteger rest

end

/-! ## Effects of statements -/

def name? : Expr → Option Text
  | .name _ id _ => some id
  | _ => none

/-- The name that is the only target of an assignment. -/
def target? : List Expr → Option Text
  | [e] => name? e
  | _ => none

/-- The environment behind an expression or an assignment to a name. -/
def exec (t : Tests) (env : Env) : Stmt → Option Env
  | .expr _ value => (eval t env value).map fun _ => env
  | .assign _ targets value =>
    (target? targets).bind fun id => (eval t env value).map fun n => Function.update env id n
  | .augAssign _ target op value =>
    (name? target).bind fun id => (binary? op).bind fun f =>
      (eval t env value).map fun n => Function.update env id (f (env id) n)
  | _ => none

/-- Integer expressions and assignments of such expressions to names. -/
def IsIntegerStmt : Stmt → Prop
  | .expr _ value => IsInteger value
  | .assign _ targets value => (target? targets).isSome = true ∧ IsInteger value
  | .augAssign _ target op value =>
    (name? target).isSome = true ∧ (binary? op).isSome = true ∧ IsInteger value
  | _ => False

/-- The environment behind a list of statements. -/
def execAll (t : Tests) : Env → List Stmt → Option Env
  | env, [] => some env
  | env, s :: rest => (exec t env s).bind fun env => execAll t env rest

/-! ## Integer expressions have values -/

section

variable (t : Tests) (env : Env)

mutual

theorem exists_eval {e : Expr} (h : IsInteger e) : ∃ n, eval t env e = some n := by
  cases e
  case name => exact ⟨_, rfl⟩
  case constant =>
    obtain ⟨n, rfl⟩ := h
    exact ⟨n, rfl⟩
  case binary x left op right =>
    obtain ⟨hop, hleft, hright⟩ := h
    obtain ⟨f, hf⟩ := Option.isSome_iff_exists.mp hop
    obtain ⟨a, ha⟩ := exists_eval hleft
    obtain ⟨b, hb⟩ := exists_eval hright
    exact ⟨f a b, by simp [eval, hf, ha, hb]⟩
  case unary x op operand =>
    have hoperand : IsInteger operand := h
    obtain ⟨n, hn⟩ := exists_eval hoperand
    exact ⟨unary op n, by simp [eval, hn]⟩
  case boolean x op values => exact exists_evalBoolean op h.2 h.1
  case conditional x test body orelse =>
    obtain ⟨htest, hbody, horelse⟩ := h
    obtain ⟨n, hn⟩ := exists_eval htest
    rw [eval, hn, Option.bind_some]
    split
    · exact exists_eval horelse
    · exact exists_eval hbody
  case compare x left ops comparators =>
    obtain ⟨hlength, hleft, hrest⟩ := h
    obtain ⟨a, ha⟩ := exists_eval hleft
    obtain ⟨b, hb⟩ := exists_evalChain hrest a ops
    exact ⟨truth b, by simp [eval, hlength, ha, hb]⟩
  all_goals exact h.elim
termination_by structural e

theorem exists_evalBoolean (op : BoolOp) {es : List Expr} (h : AllInteger es) (hne : es ≠ []) :
    ∃ n, evalBoolean t env op es = some n := by
  cases es with
  | nil => exact absurd rfl hne
  | cons e rest =>
    obtain ⟨n, hn⟩ := exists_eval h.1
    rw [evalBoolean, hn, Option.bind_some]
    split
    · exact ⟨n, rfl⟩
    · rename_i hsettled
      -- the last operand always settles the matter
      refine exists_evalBoolean op h.2 ?_
      rintro rfl
      exact hsettled rfl
termination_by structural es

theorem exists_evalChain {es : List Expr} (h : AllInteger es) (a : Int) (ops : List CompareOp) :
    ∃ b, evalChain t env a ops es = some b := by
  cases es with
  | nil => cases ops <;> exact ⟨true, rfl⟩
  | cons e rest =>
    cases ops with
    | nil => exact ⟨true, rfl⟩
    | cons op ops =>
      obtain ⟨b, hb⟩ := exists_eval h.1
      rw [evalChain, hb, Option.bind_some]
      split
      · exact exists_evalChain h.2 b ops
      · exact ⟨false, rfl⟩
termination_by structural es

end

theorem exists_exec {s : Stmt} (h : IsIntegerStmt s) : ∃ env', exec t env s = some env' := by
  cases s
  case expr x value =>
    have hvalue : IsInteger value := h
    obtain ⟨n, hn⟩ := exists_eval t env hvalue
    exact ⟨env, by rw [exec, hn, Option.map_some]⟩
  case assign x targets value =>
    obtain ⟨htarget, hvalue⟩ := h
    obtain ⟨id, hid⟩ := Option.isSome_iff_exists.mp htarget
    obtain ⟨n, hn⟩ := exists_eval t env hvalue
    exact ⟨_, by rw [exec, hid, hn, Option.bind_some, Option.map_some]⟩
  case augAssign x target op value =>
    obtain ⟨htarget, hop, hvalue⟩ := h
    obtain ⟨id, hid⟩ := Option.isSome_iff_exists.mp htarget
    obtain ⟨f, hf⟩ := Option.isSome_iff_exists.mp hop
    obtain ⟨n, hn⟩ := exists_eval t env hvalue
    exact ⟨_, by rw [exec, hid, hf, hn, Option.bind_some, Option.bind_some, Option.map_some]⟩
  all_goals exact h.elim

theorem exists_execAll {ss : List Stmt} (h : ∀ s ∈ ss, IsIntegerStmt s) :
    ∃ env', execAll t env ss = some env' := by
  induction ss generalizing env with
  | nil => exact ⟨env, rfl⟩
  | cons s rest ih =>
    obtain ⟨env', hs⟩ := exists_exec t env (h s List.mem_cons_self)
    rw [execAll, hs, Option.bind_some]
    exact ih env' fun s hs => h s (List.mem_cons_of_mem _ hs)

/-! ## The steps of normalisation -/

theorem lor_comm (a b : Int) : Int.lor a b = Int.lor b a := by
  cases a <;> cases b <;> simp [Int.lor, Nat.or_comm, Nat.and_comm]

theorem land_comm (a b : Int) : Int.land a b = Int.land b a := by
  cases a <;> cases b <;> simp [Int.land, Nat.or_comm, Nat.and_comm]

theorem xor_comm (a b : Int) : Int.xor a b = Int.xor b a := by
  cases a <;> cases b <;> simp [Int.xor, Nat.xor_comm]

/-- The operators whose operands may change places are commutative. -/
theorem binary?_comm {op : BinaryOp} (hop : Normal.isCommutative op = true)
    {f : Int → Int → Int} (hf : binary? op = some f) (a b : Int) : f a b = f b a := by
  cases op
  case add => cases hf; exact Int.add_comm a b
  case mult => cases hf; exact Int.mul_comm a b
  case bitOr => cases hf; exact lor_comm a b
  case bitAnd => cases hf; exact land_comm a b
  case bitXor => cases hf; exact xor_comm a b
  all_goals cases hop

theorem eval_swapped (x : Extent) {op : BinaryOp} (hop : Normal.isCommutative op = true)
    (left right : Expr) :
    eval t env (.binary x right op left) = eval t env (.binary x left op right) := by
  rw [eval, eval]
  cases hf : binary? op with
  | none => rfl
  | some f =>
    cases eval t env left <;> cases eval t env right <;>
      simp [binary?_comm hop hf]

/-- Whether or not the operands change places, the value is that of the operation. -/
theorem eval_binary (x : Extent) (op : BinaryOp) (left right normalLeft normalRight : Expr) :
    eval t env (Normal.binary x op left right normalLeft normalRight) =
      eval t env (.binary x normalLeft op normalRight) := by
  rw [Normal.binary]
  split
  · rename_i hswaps
    -- of the conditions for a swap only the first matters here
    have hop : Normal.isCommutative op = true := by
      simp only [Normal.swaps, Bool.and_eq_true] at hswaps
      exact hswaps.1.1.1
    exact eval_swapped t env x hop normalLeft normalRight
  · rfl

theorem test_opposite {op op' : CompareOp} (h : Normal.opposite? op = some op') (a b : Int) :
    test t op' a b = !test t op a b := by
  cases op <;> cases h <;> rfl

/-- The opposite of a single test has the value of its negation. -/
theorem eval_opposite (x y : Extent) (left : Expr) {op op' : CompareOp}
    (h : Normal.opposite? op = some op') (comparators : List Expr) :
    eval t env (.compare x left [op'] comparators) =
      (eval t env (.compare y left [op] comparators)).map (unary .not) := by
  rw [eval, eval, List.length_singleton, List.length_singleton]
  split
  case isFalse => rfl
  case isTrue hlength =>
    -- one operator has one comparator; a longer chain has no opposite
    obtain ⟨e, rfl⟩ := List.length_eq_one_iff.mp hlength.symm
    cases eval t env left with
    | none => rfl
    | some a =>
      rw [Option.bind_some, Option.bind_some, evalChain, evalChain]
      cases eval t env e with
      | none => rfl
      | some b =>
        rw [Option.bind_some, Option.bind_some, test_opposite t h]
        cases test t op a b <;> rfl

theorem eval_unary (x : Extent) (op : UnaryOp) (operand : Expr) :
    eval t env (Normal.unary x op operand) = (eval t env operand).map (unary op) := by
  unfold Normal.unary
  split
  · split
    · rename_i hop
      exact eval_opposite t env x _ _ hop _
    · rfl
  · rfl

/-! ## Normal forms -/

theorem length_exprs (cfg : Normal.Config) (es : List Expr) :
    (Normal.exprs cfg es).length = es.length := by
  induction es with
  | nil => rfl
  | cons e rest ih => rw [Normal.exprs, List.length_cons, ih, List.length_cons]

mutual

/-- An expression and its normal form have one value, or both have none. -/
theorem eval_expr (target : Bool) (e : Expr) :
    eval t env (Normal.expr .literal target e) = eval t env e := by
  cases e
  case binary x left op right =>
    rw [Normal.expr, eval_binary, eval, eval, eval_expr, eval_expr]
  case unary x op operand => rw [Normal.expr, eval_unary, eval, eval_expr]
  case boolean x op values => rw [Normal.expr, eval, eval, evalBoolean_exprs]
  case conditional x test body orelse =>
    rw [Normal.expr, eval, eval, eval_expr, eval_expr, eval_expr]
  case compare x left ops comparators =>
    rw [Normal.expr, eval, eval, eval_expr, length_exprs]
    simp only [evalChain_exprs]
  all_goals rfl
termination_by structural e

theorem evalBoolean_exprs (op : BoolOp) (es : List Expr) :
    evalBoolean t env op (Normal.exprs .literal es) = evalBoolean t env op es := by
  cases es with
  | nil => rfl
  | cons e rest =>
    have hempty : (Normal.exprs .literal rest).isEmpty = rest.isEmpty := by cases rest <;> rfl
    rw [Normal.exprs, evalBoolean, evalBoolean, eval_expr, evalBoolean_exprs, hempty]
termination_by structural es

theorem evalChain_exprs (a : Int) (ops : List CompareOp) (es : List Expr) :
    evalChain t env a ops (Normal.exprs .literal es) = evalChain t env a ops es := by
  cases es with
  | nil => rfl
  | cons e rest =>
    cases ops with
    | nil => rfl
    | cons op ops =>
      rw [Normal.exprs, evalChain, evalChain, eval_expr]
      simp only [evalChain_exprs]
termination_by structural es

end

/-- Names stay what they are, and nothing else becomes a name. -/
theorem name?_expr (target : Bool) (e : Expr) :
    name? (Normal.expr .literal target e) = name? e := by
  cases e
  case binary => exact Normal.of_binary (P := fun e => name? e = _) fun _ _ => rfl
  case unary => exact Normal.of_unary (P := fun e => name? e = _) rfl fun _ _ _ => rfl
  all_goals rfl

theorem target?_exprs (targets : List Expr) :
    target? (Normal.exprs .literal targets) = target? targets := by
  rcases targets with _ | ⟨first, _ | ⟨second, rest⟩⟩
  · rfl
  · exact name?_expr false first
  · rfl

/-- The assignment that an augmented assignment becomes computes the same value. -/
theorem exec_augAssign (x : Extent) (target : Expr) (op : BinaryOp) (value : Expr) :
    exec t env (Normal.stmt .literal (.augAssign x target op value)) =
      exec t env (.augAssign x target op value) := by
  rw [Normal.stmt, exec, exec, target?, name?_expr]
  cases target
  case name y id ctx =>
    rw [eval_binary, eval, eval_expr]
    cases binary? op <;> cases eval t env value <;> rfl
  all_goals rfl

theorem exec_stmt (s : Stmt) : exec t env (Normal.stmt .literal s) = exec t env s := by
  cases s
  case expr x value => rw [Normal.stmt, exec, exec, eval_expr]
  case assign x targets value => rw [Normal.stmt, exec, exec, target?_exprs, eval_expr]
  case augAssign x target op value => exact exec_augAssign t env x target op value
  all_goals rfl

theorem execAll_stmts (ss : List Stmt) :
    execAll t env (Normal.stmts .literal ss) = execAll t env ss := by
  induction ss generalizing env with
  | nil => rfl
  | cons s rest ih =>
    rw [Normal.stmts, execAll, execAll, exec_stmt]
    simp only [ih]

/-- Where nothing is erased, the normal form of an integer expression has its value in every
environment, and the normal form of a list of integer statements leads to the same environment. -/
theorem meaning_normal :
    (∀ e, IsInteger e → ∃ n, eval t env e = some n ∧
      eval t env (Normal.expr .literal false e) = some n) ∧
    ∀ ss, (∀ s ∈ ss, IsIntegerStmt s) → ∃ env', execAll t env ss = some env' ∧
      execAll t env (Normal.stmts .literal ss) = some env' := by
  constructor
  · intro e he
    obtain ⟨n, hn⟩ := exists_eval t env he
    exact ⟨n, hn, by rw [eval_expr, hn]⟩
  · intro ss hss
    obtain ⟨env', henv'⟩ := exists_execAll t env hss
    exact ⟨env', henv', by rw [execAll_stmts, henv']⟩

end

/-- Operands change places, an augmented assignment becomes a plain one, and a negation goes into
its test. -/
theorem meaning_normal_sample :
    let t : Tests := ⟨fun a b => a < b, fun a b => a = b⟩
    let int (n : Nat) : Expr := .constant .blank (.int n)
    let x (ctx : Context) : Expr := .name .blank (utf8 "x") ctx
    let test (op : CompareOp) : Expr := .compare .blank (x .load) [op] [int 5]
    let ss : List Stmt := [.assign .blank [x .store] (.binary .blank (int 2) .bitOr (int 1)),
      .augAssign .blank (x .store) .mult (int 3), .assign .blank [x .store]
        (.unary .blank .not (test .isIn))]
    let ss' : List Stmt := [.assign .blank [x .store] (.binary .blank (int 1) .bitOr (int 2)),
      .assign .blank [x .store] (.binary .blank (x .load) .mult (int 3)),
      .assign .blank [x .store] (test .notIn)]
    Normal.stmts .literal ss = ss' ∧
      ∃ env, execAll t (fun _ => 0) ss = some env ∧ execAll t (fun _ => 0) ss' = some env ∧
        env (utf8 "x") = 1 := by
  intro t int x test ss ss'
  have hnormal : Normal.stmts .literal ss = ss' := rfl
  have hss : ∀ s ∈ ss, IsIntegerStmt s := by
    simp [ss, test, x, int, IsIntegerStmt, IsInteger, AllInteger, target?, name?, binary?]
  obtain ⟨env, henv, henv'⟩ := (meaning_normal t fun _ => 0).2 ss hss
  rw [hnormal] at henv'
  refine ⟨hnormal, env, henv, henv', ?_⟩
  obtain rfl := Option.some.inj henv
  decide

end Meaning

end CloneScout
