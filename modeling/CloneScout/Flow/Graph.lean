import CloneScout.Digest.Sha1
import CloneScout.Normal.Basic

/-!
# Control-flow graphs

Blocks are numbered in the order of their creation. Block 0 is where control enters and block 1
where it leaves. The text of a graph lists the normal form of all it holds, and its digest is the
graph's fingerprint.
-/

namespace CloneScout.Flow

/-- What a block holds: a statement, an expression that it evaluates, or a remark about the branch
it belongs to. -/
inductive Entry where
  | stmt (s : Stmt)
  | expr (e : Expr)
  | remark (t : Text)

structure Block where
  entries : List Entry := []
  /-- Numbers of the blocks that control can go on to, in increasing order. -/
  successors : List Nat := []
  /-- The block ends with a jump. -/
  terminated : Bool := false

structure Graph where
  blocks : Array Block := #[{}, {}]

def entryBlock : Nat := 0

def exitBlock : Nat := 1

/-- Puts a number into an increasing list of numbers unless it is there already. -/
def insertNumber (n : Nat) : List Nat → List Nat
  | [] => [n]
  | m :: rest =>
    if n < m then n :: m :: rest
    else if n = m then m :: rest
    else m :: insertNumber n rest

namespace Graph

def size (g : Graph) : Nat := g.blocks.size

def block (g : Graph) (i : Nat) : Block := (g.blocks[i]?).getD {}

def create (g : Graph) : Graph := { blocks := g.blocks.push {} }

def modify (g : Graph) (i : Nat) (f : Block → Block) : Graph := { blocks := g.blocks.modify i f }

/-- Adds an edge between existing blocks. -/
def edge (g : Graph) (start stop : Nat) : Graph :=
  if start < g.size && stop < g.size then
    g.modify start fun b => { b with successors := insertNumber stop b.successors }
  else g

def append (g : Graph) (i : Nat) (e : Entry) : Graph :=
  g.modify i fun b => { b with entries := b.entries ++ [e] }

def terminate (g : Graph) (i : Nat) : Graph := g.modify i fun b => { b with terminated := true }

def isTerminated (g : Graph) (i : Nat) : Bool := (g.block i).terminated

end Graph

/-! ## Text and fingerprint -/

/-- An entry as the text of a normal statement. -/
def Entry.text (cfg : Normal.Config) : Entry → Text
  | .stmt s => Normal.stmtText cfg s
  | .expr e => utf8 "Expr(value=" ++ Normal.exprText cfg e ++ utf8 ")"
  | .remark t =>
    utf8 "Expr(value=Name(id=" ++ Quoted.text (Normal.metaMark ++ t) ++ utf8 ", ctx=Load()))"

/-- The text of block number `i`. -/
def Block.text (cfg : Normal.Config) (i : Nat) (b : Block) : Text :=
  utf8 "BLOCK[" ++ Text.ofNat i ++ utf8 "]:" ++
    Text.join (utf8 ";") (b.entries.map (Entry.text cfg)) ++ utf8 "|SUCCESSORS:" ++
    Text.join (utf8 ",") (b.successors.map Text.ofNat)

/-- The texts of blocks, numbered from `i` on. -/
def blockTexts (cfg : Normal.Config) : (i : Nat) → List Block → List Text
  | _, [] => []
  | i, b :: rest => b.text cfg i :: blockTexts cfg (i + 1) rest

def Graph.text (cfg : Normal.Config) (g : Graph) : Text :=
  Text.join (utf8 "|") (blockTexts cfg 0 g.blocks.toList)

def Graph.fingerprint (cfg : Normal.Config) (g : Graph) : Text := Sha1.hex (g.text cfg)

end CloneScout.Flow
