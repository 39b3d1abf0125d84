import CloneScout.Flow.Builder

/-!
# Blocks of a graph under construction

What each way to extend a graph does to the blocks it has. A new block is empty, as is a block that
does not exist, so opening blocks changes none.
-/

namespace CloneScout.Flow

theorem mem_insertNumber {i n : Nat} {l : List Nat} : i ∈ insertNumber n l ↔ i = n ∨ i ∈ l := by
  induction l with
  | nil => simp [insertNumber]
  | cons m rest ih =>
    rw [insertNumber]
    by_cases hlt : n < m
    · simp [hlt]
    · by_cases heq : n = m
      · simp [heq]
      · simp [hlt, heq, ih, or_left_comm]

namespace Graph

@[simp]
theorem size_create (g : Graph) : g.create.size = g.size + 1 := by simp [create, size]

@[simp]
theorem size_modify (g : Graph) (i : Nat) (f : Block → Block) : (g.modify i f).size = g.size := by
  simp [modify, size]

@[simp]
theorem size_append (g : Graph) (i : Nat) (e : Entry) : (g.append i e).size = g.size :=
  size_modify g i _

@[simp]
theorem size_terminate (g : Graph) (i : Nat) : (g.terminate i).size = g.size := size_modify g i _

@[simp]
theorem size_edge (g : Graph) (i j : Nat) : (g.edge i j).size = g.size := by
  rw [edge]
  split
  · exact size_modify g i _
  · rfl

theorem block_of_size_le {g : Graph} {i : Nat} (h : g.size ≤ i) : g.block i = {} := by
  rw [block, Array.getElem?_eq_none h, Option.getD_none]

/-- The graph that every construction starts with. -/
theorem block_empty (i : Nat) : ({} : Graph).block i = {} := by
  show (#[({} : Block), {}][i]?).getD {} = {}
  match i with
  | 0 => rfl
  | 1 => rfl
  | i + 2 => rw [Array.getElem?_eq_none (by simp)]; rfl

@[simp]
theorem block_create (g : Graph) (i : Nat) : g.create.block i = g.block i := by
  simp only [block, create, Array.getElem?_push]
  split
  next heq => simp [heq]
  next => rfl

theorem block_modify_of_ne {g : Graph} {i j : Nat} (f : Block → Block) (h : j ≠ i) :
    (g.modify i f).block j = g.block j := by
  simp [block, modify, Array.getElem?_modify, Ne.symm h]

theorem block_modify_self {g : Graph} {i : Nat} (f : Block → Block) (h : i < g.size) :
    (g.modify i f).block i = f (g.block i) := by
  have hsome : g.blocks[i]? = some g.blocks[i] := Array.getElem?_eq_getElem h
  simp [block, modify, Array.getElem?_modify, hsome]

theorem block_edge_of_ne {g : Graph} {i j k : Nat} (h : k ≠ i) :
    (g.edge i j).block k = g.block k := by
  rw [edge]
  split
  · exact block_modify_of_ne _ h
  · rfl

theorem block_edge_self {g : Graph} {i j : Nat} (hi : i < g.size) (hj : j < g.size) :
    (g.edge i j).block i =
      { g.block i with successors := insertNumber j (g.block i).successors } := by
  rw [edge, if_pos (by simp [hi, hj])]
  exact block_modify_self _ hi

/-- An edge only changes where a block leads. -/
theorem block_edge (g : Graph) (i j k : Nat) :
    ((g.edge i j).block k).entries = (g.block k).entries ∧
      ((g.edge i j).block k).terminated = (g.block k).terminated := by
  by_cases hk : k = i
  · subst hk
    by_cases hrange : k < g.size ∧ j < g.size
    · rw [block_edge_self hrange.1 hrange.2]
      exact ⟨rfl, rfl⟩
    · rw [edge, if_neg (by simpa using hrange)]
      exact ⟨rfl, rfl⟩
  · rw [block_edge_of_ne hk]
    exact ⟨rfl, rfl⟩

theorem block_append_of_ne {g : Graph} {i j : Nat} (e : Entry) (h : j ≠ i) :
    (g.append i e).block j = g.block j :=
  block_modify_of_ne _ h

theorem block_append_self {g : Graph} {i : Nat} (e : Entry) (h : i < g.size) :
    (g.append i e).block i = { g.block i with entries := (g.block i).entries ++ [e] } :=
  block_modify_self _ h

theorem block_terminate_of_ne {g : Graph} {i j : Nat} (h : j ≠ i) :
    (g.terminate i).block j = g.block j :=
  block_modify_of_ne _ h

theorem block_terminate_self {g : Graph} {i : Nat} (h : i < g.size) :
    (g.terminate i).block i = { g.block i with terminated := true } :=
  block_modify_self _ h

end Graph

/-! ## Texts of blocks -/

theorem getElem?_blockTexts (cfg : Normal.Config) (n : Nat) (bs : List Block) (i : Nat) :
    (blockTexts cfg n bs)[i]? = bs[i]?.map fun b => b.text cfg (n + i) := by
  induction bs generalizing n i with
  | nil => rfl
  | cons b bs ih =>
    cases i with
    | zero => rfl
    | succ i =>
      rw [blockTexts, List.getElem?_cons_succ, List.getElem?_cons_succ, ih, Nat.add_right_comm,
        Nat.add_assoc]

/-- Blocks are written in the order of their numbers. -/
theorem Graph.getElem?_texts (g : Graph) (cfg : Normal.Config) {i : Nat} (hi : i < g.size) :
    (blockTexts cfg 0 g.blocks.toList)[i]? = some ((g.block i).text cfg i) := by
  have hblock : g.blocks[i]? = some (g.block i) := by
    rw [block, Array.getElem?_eq_getElem hi]
    rfl
  rw [getElem?_blockTexts, Array.getElem?_toList, hblock, Nat.zero_add]
  rfl

end CloneScout.Flow
