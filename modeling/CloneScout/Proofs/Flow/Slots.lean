import CloneScout.Proofs.Flow.Live

/-!
# Slots of statements

The blocks of a graph are numbered in the order in which the statements open them, so the block of
every live statement can be told in advance, as can the header and the end of the loop around it and
the test of the first handler if it stands directly in the body of a `try` statement.
-/

namespace CloneScout.Flow

/-! ## Slots -/

/-- The statement ends the block that it stands in. -/
def isJump : Stmt → Bool
  | .ret .. => true
  | .raise .. => true
  | .breakLoop .. => true
  | .continueLoop .. => true
  | _ => false

/-- A statement with the block that it stands in, the header and the end of the innermost loop around
it and, if it stands directly in the body of a `try` statement with handlers, the block that tests
for the first of them. -/
structure Slot where
  stmt : Stmt
  block : Nat
  loop : Option Loop
  test : Option Nat

/-- Where a statement jumps to: outside of loops `break` and `continue` lead to the exit. -/
def jumpTarget (loop : Option Loop) : Stmt → Nat
  | .breakLoop .. => loop.elim exitBlock Loop.done
  | .continueLoop .. => loop.elim exitBlock Loop.again
  | _ => exitBlock

def Slot.target (p : Slot) : Nat := jumpTarget p.loop p.stmt

theorem jumpTarget_lt {loop : Option Loop} {n : Nat} (hexit : exitBlock < n)
    (hloop : Loop.InRange loop n) (s : Stmt) : jumpTarget loop s < n := by
  unfold jumpTarget
  cases loop with
  | none => split <;> exact hexit
  | some l =>
    obtain ⟨hagain, hdone⟩ := hloop l rfl
    split
    · exact hdone
    · exact hagain
    · exact hexit

/-- The block that takes the next statement, and the number of blocks so far: that of the next one. -/
structure Point where
  block : Nat
  size : Nat

/-- Slots from a point on, and the point behind them. -/
abbrev Layout := Point → List Slot × Point

namespace Layout

def seq (first second : Layout) : Layout := fun point =>
  ((first point).1 ++ (second (first point).2).1, (second (first point).2).2)

/-- Suites in blocks that are there already, one after the other; then the block `done` is next. -/
def suites (done : Nat) : List (Nat × Layout) → (size : Nat) → List Slot × Point
  | [], size => ([], ⟨done, size⟩)
  | (i, lay) :: rest, size =>
    ((lay ⟨i, size⟩).1 ++ (suites done rest (lay ⟨i, size⟩).2.size).1,
      (suites done rest (lay ⟨i, size⟩).2.size).2)

/-- A loop opens its header, the block of its body, that of its `else` list if it has one, and the
block behind it. -/
def loopSuites (body : Option Loop → Layout) (orelse : List Stmt) (other : Layout) (n : Nat) :
    List (Nat × Layout) :=
  let done := Builder.loopDone orelse n
  (n + 1, body (some ⟨n, done⟩)) :: if orelse.isEmpty then [] else [(n + 2, other)]

mutual

/-- Slots for the live simple statements of a live statement. A condition opens a block for each
operand but the first. -/
def ofStmt (loop : Option Loop) (test : Option Nat) (s : Stmt) : Layout := fun point =>
  let n := point.size
  match s with
  | .branch _ cond body orelse =>
    suites (n + 2) [(n, ofStmts loop none body), (n + 1, ofStmts loop none orelse)]
      (n + 3 + ((decisions cond).length - 1))
  | .whileLoop _ cond body orelse =>
    let done := Builder.loopDone orelse n
    suites done (loopSuites (fun inner => ofStmts inner none body) orelse (ofStmts loop none orelse) n)
      (done + 1 + ((decisions cond).length - 1))
  | .forLoop _ _ _ _ body orelse =>
    let done := Builder.loopDone orelse n
    suites done (loopSuites (fun inner => ofStmts inner none body) orelse (ofStmts loop none orelse) n)
      (done + 1)
  | .withBlock _ _ _ body => suites (n + 1) [(n, ofStmts loop none body)] (n + 2)
  | .tryBlock _ _ body hs orelse finalbody =>
    -- the entry, the tests of the handlers, their bodies, the `else` list and the block behind
    let test := if hs.isEmpty then none else some (n + 1)
    let other := n + 1 + hs.length + hs.length
    let done := Builder.tryDone hs orelse n
    seq (fun _ => suites done ((n, ofStmts loop test body) ::
        (ofHandlers loop (n + 1 + hs.length) hs ++
          if orelse.isEmpty then [] else [(other, ofStmts loop none orelse)])) (done + 1))
      (ofStmts loop none finalbody) point
  | .matchBlock _ _ cs => ofCases loop n cs (n + 1)
  | s => ([⟨s, point.block, loop, test⟩], point)

def ofStmts (loop : Option Loop) (test : Option Nat) : List Stmt → Layout
  | [] => fun point => ([], point)
  | s :: rest =>
    if ends s then ofStmt loop test s else seq (ofStmt loop test s) (ofStmts loop test rest)

/-- Bodies of handlers in blocks numbered from `i` on. -/
def ofHandlers (loop : Option Loop) : (i : Nat) → List Handler → List (Nat × Layout)
  | _, [] => []
  | i, .mk _ _ body :: rest => (i, ofStmts loop none body) :: ofHandlers loop (i + 1) rest

/-- Each case opens a block for its test and one for its body. -/
def ofCases (loop : Option Loop) (done : Nat) : List MatchCase → (size : Nat) → List Slot × Point
  | [], size => ([], ⟨done, size⟩)
  | .mk _ _ body :: rest, size =>
    let here := ofStmts loop none body ⟨size + 1, size + 2⟩
    (here.1 ++ (ofCases loop done rest here.2.size).1, (ofCases loop done rest here.2.size).2)

end

end Layout

/-- The slots of the live simple statements of a body. -/
def slots (body : List Stmt) : List Slot := (Layout.ofStmts none none body ⟨entryBlock, 2⟩).1

/-! ## What the slots are for -/

namespace Layout

/-- The slots are for these statements, whatever the point is that they start from. -/
def Spells (lay : Layout) (ss : List Stmt) : Prop := ∀ point, (lay point).1.map Slot.stmt = ss

theorem Spells.seq {first second : Layout} {ss ss' : List Stmt} (h : first.Spells ss)
    (h' : second.Spells ss') : (first.seq second).Spells (ss ++ ss') := fun point => by
  rw [Layout.seq, List.map_append, h, h']

theorem spells_suites {layouts : List (Nat × Layout)} {sss : List (List Stmt)}
    (h : List.Forall₂ (fun l ss => l.2.Spells ss) layouts sss) (done size : Nat) :
    (suites done layouts size).1.map Slot.stmt = sss.flatten := by
  induction h generalizing size with
  | nil => rfl
  | cons hfirst _ ih => rw [suites, List.map_append, hfirst, ih, List.flatten_cons]

/-- An `else` list is left out if it is empty. -/
theorem forall₂_spells_else {l : Nat × Layout} {orelse : List Stmt}
    (h : l.2.Spells (Live.ofStmts orelse)) :
    List.Forall₂ (fun l ss => l.2.Spells ss) (if orelse.isEmpty then [] else [l])
      (if orelse.isEmpty then [] else [Live.ofStmts orelse]) := by
  split
  · exact .nil
  · exact .cons h .nil

theorem flatten_else (orelse : List Stmt) :
    (if orelse.isEmpty then [] else [Live.ofStmts orelse]).flatten = Live.ofStmts orelse := by
  cases orelse with
  | nil => rfl
  | cons s rest => exact List.append_nil _

theorem spells_loop {body : Option Loop → Layout} {ss orelse : List Stmt} {other : Layout}
    (hbody : ∀ loop, (body loop).Spells ss) (hother : other.Spells (Live.ofStmts orelse))
    (done n size : Nat) :
    (suites done (loopSuites body orelse other n) size).1.map Slot.stmt =
      ss ++ Live.ofStmts orelse := by
  have hparts : List.Forall₂ (fun l ss => l.2.Spells ss) (loopSuites body orelse other n)
      (ss :: if orelse.isEmpty then [] else [Live.ofStmts orelse]) :=
    .cons (hbody _) (forall₂_spells_else hother)
  rw [spells_suites hparts, List.flatten_cons, flatten_else]

def handlerStmts : Handler → List Stmt
  | .mk _ _ body => Live.ofStmts body

theorem flatten_handlerStmts (hs : List Handler) :
    (hs.map handlerStmts).flatten = Live.ofHandlers hs := by
  induction hs with
  | nil => rfl
  | cons h rest ih =>
    obtain ⟨_, _, body⟩ := h
    rw [List.map_cons, List.flatten_cons, ih]
    rfl

mutual

theorem spells_ofStmt (loop : Option Loop) (test : Option Nat) (s : Stmt) :
    (ofStmt loop test s).Spells (Live.ofStmt s) := by
  intro point
  cases s
  case branch x cond body orelse =>
    have hparts : List.Forall₂ (fun l ss => l.2.Spells ss)
        [(point.size, ofStmts loop none body), (point.size + 1, ofStmts loop none orelse)]
        [Live.ofStmts body, Live.ofStmts orelse] :=
      .cons (spells_ofStmts loop none body) (.cons (spells_ofStmts loop none orelse) .nil)
    rw [Layout.ofStmt, Live.ofStmt, spells_suites hparts]
    simp
  case whileLoop x cond body orelse =>
    rw [Layout.ofStmt, Live.ofStmt]
    exact spells_loop (fun inner => spells_ofStmts inner none body) (spells_ofStmts loop none orelse)
      _ _ _
  case forLoop x isAsync target iter body orelse =>
    rw [Layout.ofStmt, Live.ofStmt]
    exact spells_loop (fun inner => spells_ofStmts inner none body) (spells_ofStmts loop none orelse)
      _ _ _
  case withBlock x isAsync items body =>
    rw [Layout.ofStmt, Live.ofStmt, suites, suites, List.append_nil]
    exact spells_ofStmts loop none body _
  case tryBlock x isStar body hs orelse finalbody =>
    rw [Layout.ofStmt, Live.ofStmt]
    refine Spells.seq (fun _ => ?_) (spells_ofStmts loop none finalbody) point
    have hbody (test : Option Nat) : (point.size, ofStmts loop test body).2.Spells
        (Live.ofStmts body) := spells_ofStmts loop test body
    have hparts := List.rel_append (spells_ofHandlers loop (point.size + 1 + hs.length) hs)
      (forall₂_spells_else (l := (point.size + 1 + hs.length + hs.length, ofStmts loop none orelse))
        (spells_ofStmts loop none orelse))
    have hsuites := spells_suites (.cons (hbody (if hs.isEmpty then none else some (point.size + 1)))
      hparts) (Builder.tryDone hs orelse point.size) (Builder.tryDone hs orelse point.size + 1)
    rw [List.flatten_cons, List.flatten_append, flatten_handlerStmts, flatten_else,
      ← List.append_assoc] at hsuites
    exact hsuites
  case matchBlock x subject cs =>
    rw [Layout.ofStmt, Live.ofStmt]
    exact spells_ofCases loop _ cs _
  all_goals rfl

theorem spells_ofStmts (loop : Option Loop) (test : Option Nat) :
    ∀ ss : List Stmt, (ofStmts loop test ss).Spells (Live.ofStmts ss)
  | [] => fun _ => rfl
  | s :: rest => by
    rw [Layout.ofStmts, Live.ofStmts]
    split
    · rw [List.append_nil]
      exact spells_ofStmt loop test s
    · exact (spells_ofStmt loop test s).seq (spells_ofStmts loop test rest)

theorem spells_ofHandlers (loop : Option Loop) (i : Nat) : ∀ hs : List Handler,
    List.Forall₂ (fun l ss => l.2.Spells ss) (ofHandlers loop i hs) (hs.map handlerStmts)
  | [] => .nil
  | .mk _ _ body :: rest => .cons (spells_ofStmts loop none body) (spells_ofHandlers loop (i + 1) rest)

theorem spells_ofCases (loop : Option Loop) (done : Nat) : ∀ (cs : List MatchCase) (size : Nat),
    (ofCases loop done cs size).1.map Slot.stmt = Live.ofCases cs
  | [], _ => rfl
  | .mk _ _ body :: rest, size => by
    rw [Layout.ofCases, Live.ofCases, List.map_append, spells_ofStmts loop none body,
      spells_ofCases loop done rest]

end

end Layout

/-- There is a slot for each live simple statement, in their order. -/
theorem map_stmt_slots (body : List Stmt) : (slots body).map Slot.stmt = Live.ofStmts body :=
  Layout.spells_ofStmts none none body _

end CloneScout.Flow
