import BlockRobot.Compilation
import BlockRobot.Proofs.Run.Unrolling

/-!
# What a drawing means

A drawing can be walked as it stands, without a program.  One visits the head of the stack
and then the block below, and so on.  A block without a role is passed over; a loop block is
announced, and then the stack in its body is walked as often as the block says; every other
block is announced, and the game applies what the block stands for.

`Block.tour` is that walk, by recursion over the drawing and with no mention of the
compiler: `Block.visit` says what happens at one block, and `Block.tour_eq` how visits are
put together along links.  The compiler goes along the same links but writes a program, and
the program is later walked by a recursion of its own.  That the two come to the same
(`tour_compile`) is proved block by block: the unrolling of what the compiler writes for a
block, given the program of its body, is the visit of the block, given the walk of its body
(`tour_compileWith`).

`run_compile_eq_tour` puts this together with the meaning of runs.

The walk and the compiler read the numbers of a block by the same functions, so the comparison
says nothing about those.  What they are, in terms of the number a block shows or lacks, is said
by `Vocabulary.stepsOf_eq`, `Vocabulary.stepsBackOf_eq`, `Vocabulary.repetitions_timesOf` and
`Vocabulary.value_msOf`.
-/

namespace BlockRobot

namespace Block

variable {σ φ : Type}

/-! ## Walking a drawing -/

/-- A visit to one block, given the walk of the stack in its body. -/
def visit (g : Game σ φ) (v : Vocabulary) (body : σ → Tour σ) (b : Block) (s : σ) : Tour σ :=
  match v.roleOf? b.tag with
  | none => .stay s
  | some .start => g.take (.start b.id) s
  | some .move => g.take (.move (v.stepsOf b) b.id) s
  | some .back => g.take (.move (v.stepsBackOf b) b.id) s
  | some .turnLeft => g.take (.turn .left b.id) s
  | some .turnRight => g.take (.turn .right b.id) s
  | some .wait => g.take (.wait (v.msOf b) b.id) s
  | some .loop =>
    Tour.andThen ⟨[.announce b.id], s, .goOn⟩ (Tour.rounds body (v.timesOf b).repetitions)

mutual

/-- The walk of the stack headed by a block. -/
def tour (g : Game σ φ) (v : Vocabulary) : Block → σ → Tour σ
  | b@⟨_, _, _, _, _, inputs, next⟩, s =>
    (visit g v (bodyTour g v inputs) b s).andThen (belowTour g v next)

/-- The walk of the stack that hangs on a link. -/
def belowTour (g : Game σ φ) (v : Vocabulary) : Option (Link Block) → σ → Tour σ
  | some ⟨some b, _⟩, s => tour g v b s
  | some ⟨none, _⟩, s => .stay s
  | none, s => .stay s

/-- The walk of the stack in the input for the body. -/
def bodyTour (g : Game σ φ) (v : Vocabulary) : List (String × Link Block) → σ → Tour σ
  | [], s => .stay s
  | (name, ⟨block, _⟩) :: inputs, s =>
    if name = v.fields.body then blockTour g v block s else bodyTour g v inputs s

/-- The walk of the stack headed by a block that may be absent. -/
def blockTour (g : Game σ φ) (v : Vocabulary) : Option Block → σ → Tour σ
  | some b, s => tour g v b s
  | none, s => .stay s

end

/-- How a drawing is walked: visit the block, walking the stack in its body if it is a loop,
and then walk from the block below. -/
theorem tour_eq (g : Game σ φ) (v : Vocabulary) (b : Block) :
    b.tour g v = fun s =>
      (visit g v (blockTour g v (b.statement? v.fields.body)) b s).andThen
        (blockTour g v b.below?) := by
  have hbody : ∀ inputs : List (String × Link Block),
      bodyTour g v inputs =
        blockTour g v ((getByName? v.fields.body inputs).bind Link.block) := by
    intro inputs
    funext s
    induction inputs with
    | nil => rfl
    | cons entry inputs ih =>
      obtain ⟨name, block, shadow⟩ := entry
      by_cases h : name = v.fields.body
      · simp [bodyTour, getByName?, h]
      · simp only [bodyTour, h, if_false, ih, getByName?, List.find?_cons, decide_false]
  have hbelow : ∀ next : Option (Link Block),
      belowTour g v next = blockTour g v (next.bind Link.block) := by
    intro next
    funext s
    rcases next with _ | ⟨_ | _, _⟩ <;> rfl
  funext s
  obtain ⟨tag, id, x, y, fields, inputs, next⟩ := b
  rw [tour, hbody, hbelow]
  rfl

/-! ## Compiling a drawing and walking it -/

/-- What the compiler writes for one block is, unrolled, the visit of the block. -/
theorem tour_compileWith (g : Game σ φ) (v : Vocabulary) (body : List Op) (b : Block) (s : σ) :
    g.tour (Op.unrolledAll (compileWith v body b).toList) s =
      visit g v (g.tour (Op.unrolledAll body)) b s := by
  rw [compileWith, visit]
  cases v.roleOf? b.tag with
  | none => rfl
  | some role =>
    rw [Option.map_some, Option.toList_some, Op.unrolledAll_singleton]
    cases role with
    | loop =>
      show g.tour (Op.unrolled (.loop (v.timesOf b) body b.id)) s = _
      rw [Op.unrolled, Game.tour_cons]
      congr 1
      funext t
      exact g.tour_flatten_replicate _ _ t
    | _ => exact g.tour_singleton _ s

mutual

/-- **The compiler preserves the meaning of stacks**: the unrolling of what it writes is the
walk of the stack. -/
theorem tour_compile (g : Game σ φ) (v : Vocabulary) :
    ∀ b : Block, g.tour (Op.unrolledAll (b.compile v)) = b.tour g v
  | ⟨tag, id, x, y, fields, inputs, next⟩ => by
    funext s
    rw [compile, tour, Op.unrolledAll_append, Game.tour_append, tour_compileWith,
      tour_compileBody g v inputs, tour_compileBelow g v next]

theorem tour_compileBelow (g : Game σ φ) (v : Vocabulary) :
    ∀ next : Option (Link Block),
      g.tour (Op.unrolledAll (compileBelow v next)) = belowTour g v next
  | some ⟨some b, _⟩ => tour_compile g v b
  | some ⟨none, _⟩ => rfl
  | none => rfl

theorem tour_compileBody (g : Game σ φ) (v : Vocabulary) :
    ∀ inputs : List (String × Link Block),
      g.tour (Op.unrolledAll (compileBody v inputs)) = bodyTour g v inputs
  | [] => rfl
  | (name, ⟨block, _⟩) :: inputs => by
    funext s
    rw [compileBody, bodyTour]
    split
    · rw [tour_compileBlock g v block]
    · rw [tour_compileBody g v inputs]

theorem tour_compileBlock (g : Game σ φ) (v : Vocabulary) :
    ∀ first : Option Block,
      g.tour (Op.unrolledAll (compileBlock v first)) = blockTour g v first
  | some b => tour_compile g v b
  | none => rfl

end

end Block

/-- The program of a drawing with a start is that of the first stack, in the order of the
page, that is headed by one. -/
theorem Workspace.exists_compile_eq (w : Workspace) (v : Vocabulary)
    (hstart : ∃ b ∈ w.heads, v.isStart b = true) :
    ∃ before head after, w.inOrder = before ++ head :: after ∧
      (∀ b ∈ before, v.isStart b = false) ∧ v.isStart head = true ∧
      w.compile v = ⟨head.compile v⟩ := by
  obtain ⟨b, hb, hbstart⟩ := hstart
  have hsome : (w.inOrder.find? v.isStart).isSome = true :=
    List.find?_isSome.2 ⟨b, (List.mergeSort_perm w.heads notAfter).mem_iff.2 hb, hbstart⟩
  obtain ⟨head, hhead⟩ := Option.isSome_iff_exists.1 hsome
  obtain ⟨hheadstart, before, after, horder, hbefore⟩ := List.find?_eq_some_iff_append.1 hhead
  refine ⟨before, head, after, horder, fun b hb => by simpa using hbefore b hb, hheadstart, ?_⟩
  rw [compile, hhead]

/-- A drawing of two stacks, of which the lower one is headed by a start. -/
def twoStacks : Workspace where
  languageVersion := 0
  heads := [
    ⟨"maze_start", "s", .zero, .ofInt 40, [], [],
      some ⟨some ⟨"maze_repeat", "r", .zero, .zero, [("TIMES", .text " 2 ")],
        [("DO", ⟨some (.bare "maze_move_forward" "m"), none⟩)], none⟩, none⟩⟩,
    .bare "maze_turn_left" "t"]

/-- A run of the drawing that nobody stops. -/
def walkedStacks : Report (List String) Empty (Timetable Empty) :=
  run (Rehearsal.game {}) (Timetable.host Empty).patient (twoStacks.compile .maze)
    Rehearsal.stale {}

end BlockRobot
