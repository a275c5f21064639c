import BlockRobot.Compilation
import BlockRobot.Proofs.Block.Places
import BlockRobot.Proofs.Block.Rooms

/-!
# Drawings compiled from their texts

A drawing is compiled from its text as it is in memory exactly if its text is nested no
deeper than a reader goes (`Compilation.ofText_toText_eq_iff`).  A deeper one is refused as
malformed (`Compilation.ofText_toText`), whatever its program would be.

## The depth and the number of blocks

Two limits that know nothing of each other meet here.  A program may have 200 instructions,
and a text may have 127 brackets one in another.  A block stands in a bracket inside the one
of the link it hangs on, which in turn is inside the block above, so a chain of `n` blocks is
`2 * n + 2` brackets deep at least (`Workspace.length_chain_le_depth`), the drawing, its
stacks and their list counted.  A drawing with a chain of 63 blocks is therefore never read.

`spinning` is the drawing of a start and `n + 1` turns.  Its program may run as long as it
has no more than 200 instructions, but the text is read only up to 62 blocks
(`Compilation.spinning_gap`).
-/

namespace BlockRobot

/-! ## The depth of a chain -/

/-- Every block of a chain costs two brackets, that of the link and its own. -/
theorem Block.length_chain_le_depth (b : Block) : 2 * b.chain.length ≤ b.toJson.depth + 1 := by
  induction b using linkInduction with
  | step b hbelow _ =>
    rw [chain_eq, List.length_cons]
    cases hc : b.below? with
    | none =>
      have hpos := b.depth_toJson_pos
      show 2 * (0 + 1) ≤ _
      omega
    | some c =>
      have hchain := hbelow c hc
      have hdepth := depth_below_le hc
      show 2 * (c.chain.length + 1) ≤ _
      omega

theorem Workspace.length_chain_le_depth {w : Workspace} {b : Block} (hb : b ∈ w.heads) :
    2 * b.chain.length + 2 ≤ w.toJson.depth := by
  have hblock := b.length_chain_le_depth
  have hitem : b.toJson.depth ≤ Json.itemDepth (w.heads.map Block.toJson) :=
    Json.depth_le_itemDepth (List.mem_map_of_mem hb)
  rw [depth_toJson]
  omega

/-! ## A start and turns -/

/-- A block with another below it. -/
def Block.above (tag id : String) (b : Block) : Block :=
  { bare tag id with next := some ⟨some b, none⟩ }

/-- A stack of `n + 1` turns. -/
def leftTurns : Nat → Block
  | 0 => .bare "maze_turn_left" "left"
  | n + 1 => .above "maze_turn_left" "left" (leftTurns n)

/-- The drawing of a start with `n + 1` turns below it. -/
def spinning (n : Nat) : Workspace := ⟨0, [.above "maze_start" "start" (leftTurns n)]⟩

theorem Block.Storable.above {b : Block} (hb : b.Storable) (tag id : String) :
    (Block.above tag id b).Storable :=
  ⟨rfl, rfl, ⟨List.Pairwise.nil, trivial, fun _ h => (List.not_mem_nil h).elim⟩,
    ⟨List.Pairwise.nil, trivial⟩, hb, trivial⟩

theorem storable_leftTurns (n : Nat) : (leftTurns n).Storable := by
  induction n with
  | zero =>
    exact ⟨rfl, rfl, ⟨List.Pairwise.nil, trivial, fun _ h => (List.not_mem_nil h).elim⟩,
      ⟨List.Pairwise.nil, trivial⟩, trivial⟩
  | succ n ih => exact ih.above _ _

theorem storable_spinning (n : Nat) : (spinning n).Storable := by
  refine ⟨Nat.two_pow_pos 32, fun b hb => ?_⟩
  rw [List.mem_singleton.1 hb]
  exact (storable_leftTurns n).above _ _

theorem length_chain_leftTurns (n : Nat) : (leftTurns n).chain.length = n + 1 := by
  induction n with
  | zero => rfl
  | succ n ih =>
    show (leftTurns n).chain.length + 1 = n + 1 + 1
    rw [ih]

theorem roleOf?_maze_start : Vocabulary.maze.roleOf? "maze_start" = some .start := by
  decide +kernel

theorem roleOf?_maze_turn_left :
    Vocabulary.maze.roleOf? "maze_turn_left" = some .turnLeft := by
  decide +kernel

theorem compile_leftTurns (n : Nat) :
    (leftTurns n).compile .maze = List.replicate (n + 1) (.turn .left "left") := by
  have hturn : ∀ b : Block, b.tag = "maze_turn_left" →
      Block.compileWith .maze [] b = some (.turn .left b.id) := by
    intro b hb
    rw [Block.compileWith, hb, roleOf?_maze_turn_left]
    rfl
  induction n with
  | zero =>
    show (Block.compileWith .maze [] (leftTurns 0)).toList ++ [] = _
    rw [hturn _ rfl]
    rfl
  | succ n ih =>
    show (Block.compileWith .maze [] (leftTurns (n + 1))).toList ++ (leftTurns n).compile .maze = _
    rw [hturn _ rfl, ih]
    rfl

/-- The program of a start and turns. -/
theorem compile_spinning (n : Nat) :
    (spinning n).compile .maze =
      ⟨.start "start" :: List.replicate (n + 1) (.turn .left "left")⟩ := by
  have horder : (spinning n).inOrder = [.above "maze_start" "start" (leftTurns n)] :=
    List.mergeSort_singleton _
  have hstart : Vocabulary.maze.isStart (.above "maze_start" "start" (leftTurns n)) = true :=
    decide_eq_true roleOf?_maze_start
  have hblock : Block.compileWith .maze [] (.above "maze_start" "start" (leftTurns n)) =
      some (.start "start") := by
    show (Vocabulary.maze.roleOf? "maze_start").map _ = _
    rw [roleOf?_maze_start]
    rfl
  rw [Workspace.compile, horder, List.find?_cons_of_pos hstart]
  show Program.mk
    ((Block.compileWith .maze [] (.above "maze_start" "start" (leftTurns n))).toList ++
      (leftTurns n).compile .maze) = _
  rw [hblock, compile_leftTurns]
  rfl

/-- The program of a start and turns may run if it is not too long. -/
theorem success_spinning {n : Nat} (hn : n + 2 ≤ Program.largestCount) :
    (Compilation.ofWorkspace (spinning n) .maze).success = true := by
  have hturns : ∀ k, Op.countAll (List.replicate k (.turn .left "left")) = k := by
    intro k
    induction k with
    | zero => rfl
    | succ k ih =>
      rw [List.replicate_succ, Op.countAll_cons, ih, Op.count]
      omega
  rw [Compilation.success_ofWorkspace, Program.runnable_iff, compile_spinning]
  refine ⟨rfl, ?_⟩
  rw [Program.count, Op.countAll_cons, hturns, Op.count]
  omega

/-! ## Compiling from a text -/

namespace Compilation

/-- Whatever is read has a program, and nothing else has. -/
theorem unreadable_ne_ofWorkspace (message : String) (w : Workspace) (v : Vocabulary) :
    unreadable message ≠ ofWorkspace w v := by
  intro h
  have hprogram : none = some (w.compile v) := congrArg Compilation.program h
  cases hprogram

/-- A drawing is compiled from its text, or the text is refused because it is too deep. -/
theorem ofText_toText {w : Workspace} (hw : w.Storable) (v : Vocabulary) :
    ofText w.toText v =
      if w.toJson.depth ≤ Reader.depth then ofWorkspace w v
      else unreadable "malformed workspace: <syntax>" := by
  rw [ofText, Workspace.ofText_toText hw, within]
  by_cases h : w.toJson.depth ≤ Reader.depth
  · rw [if_pos h, if_pos h]
  · rw [if_neg h, if_neg h]
    rfl

/-- A drawing with a chain of 63 blocks is refused. -/
theorem ofText_toText_of_length_chain {w : Workspace} (hw : w.Storable) (v : Vocabulary)
    {b : Block} (hb : b ∈ w.heads) (hlength : 63 ≤ b.chain.length) :
    ofText w.toText v = unreadable "malformed workspace: <syntax>" := by
  have hdepth := Workspace.length_chain_le_depth hb
  have hdeep : ¬w.toJson.depth ≤ Reader.depth := by
    rw [Reader.depth]
    omega
  rw [ofText_toText hw v, if_neg hdeep]

/-- **The text of a drawing compiles to what the drawing compiles to** exactly if its brackets
are nested no deeper than a reader goes. -/
theorem ofText_toText_eq_iff {w : Workspace} (hw : w.Storable) (v : Vocabulary) :
    ofText w.toText v = ofWorkspace w v ↔ w.toJson.depth ≤ Reader.depth := by
  rw [ofText_toText hw v]
  constructor
  · intro h
    by_contra hdeep
    rw [if_neg hdeep] at h
    exact unreadable_ne_ofWorkspace _ w v h
  · intro h
    rw [if_pos h]

/-- The longest drawing of a start and turns that is read. -/
theorem spinning_compiles_from_text :
    (spinning 60).Storable ∧ (ofWorkspace (spinning 60) .maze).success = true ∧
      ofText (spinning 60).toText .maze = ofWorkspace (spinning 60) .maze := by
  refine ⟨storable_spinning 60, success_spinning (by decide), ?_⟩
  exact (ofText_toText_eq_iff (storable_spinning 60) .maze).2 (by decide +kernel)

/-- A start with 62 turns below it, or any number up to 199, is a program that may run, and
its text is refused. -/
theorem spinning_gap {n : Nat} (hlong : 62 ≤ n + 1) (hshort : n + 1 ≤ 199) :
    (ofWorkspace (spinning n) .maze).success = true ∧
      ofText (spinning n).toText .maze = unreadable "malformed workspace: <syntax>" := by
  refine ⟨success_spinning ?_, ?_⟩
  · rw [Program.largestCount]
    omega
  · refine ofText_toText_of_length_chain (storable_spinning n) .maze (List.mem_singleton_self _) ?_
    show 63 ≤ (leftTurns n).chain.length + 1
    rw [length_chain_leftTurns]
    omega

theorem spinning_refused_from_text :
    (spinning 61).Storable ∧ (ofWorkspace (spinning 61) .maze).success = true ∧
      ofText (spinning 61).toText .maze ≠ ofWorkspace (spinning 61) .maze := by
  obtain ⟨hsuccess, htext⟩ := spinning_gap (n := 61) (by decide) (by decide)
  refine ⟨storable_spinning 61, hsuccess, fun h => ?_⟩
  rw [htext] at h
  exact unreadable_ne_ofWorkspace _ _ _ h

end Compilation

end BlockRobot
