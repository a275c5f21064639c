import BlockRobot.Compilation
import Mathlib.Logic.Relation

/-!
# Blocks without a role are transparent

A block whose type plays no role adds nothing to a program, and what is below it counts as if the
block were not there.  So such blocks can be taken out of a drawing or put into it, wherever they
hang on a link that is compiled, and the program stays the same
(`Workspace.compile_eq_of_thinned`).

* `Block.Thinned` says where one block can go: from below any block, and from the head of the body
  of a loop, what was below it taking its place.  This can happen anywhere in a drawing, in blocks
  and in shadows, also where the compiler never looks.
* `Block.Thinned.compile_eq` follows the derivation.  What matters is that a block stays what it is
  to those that look at it from outside: they see its type, its id, its fields, and what its stack
  compiles to.
* A head of a stack keeps its place and its type too, so the heads are sorted in the same order and
  the same is found among them (`Workspace.compile_eq_of_sights`).

## Why the names must differ

A loop looks into the input for its body for the stack it repeats, and into the input for its
number for a block whose first field is a number.  If both are one input, then a block at the head
of the body has a meaning without having a role, and taking it away changes how often the loop runs.
-/

namespace BlockRobot

/-! ## Thinning -/

/-- Whether two lists of inputs hold the same links, except under one name. -/
def SameExcept (name : String) (inputs inputs' : List (String × Link Block)) : Prop :=
  ∀ other, other ≠ name → getByName? other inputs' = getByName? other inputs

theorem sameExcept_cons (name : String) (link link' : Link Block)
    (rest : List (String × Link Block)) :
    SameExcept name ((name, link) :: rest) ((name, link') :: rest) := by
  intro other hother
  rw [getByName?_cons, getByName?_cons, if_neg hother.symm, if_neg hother.symm]

/-- On a link one block is exchanged for another, as the block that hangs there or as its shadow. -/
inductive Link.Exchanged (c c' : Block) : Link Block → Link Block → Prop
  | block (shadow : Option Block) : Exchanged c c' ⟨some c, shadow⟩ ⟨some c', shadow⟩
  | shadow (block : Option Block) : Exchanged c c' ⟨block, some c⟩ ⟨block, some c'⟩

namespace Block

/-- One block without a role is taken out, somewhere below a block or inside it, and what was below
the block taken out hangs in its place.  If nothing was below it, the link may stay without a block
or go. -/
inductive Thinned (v : Vocabulary) : Block → Block → Prop
  /-- The next block goes. -/
  | goneBelow {b gone : Block} {next : Option (Link Block)} (hbelow : b.below? = some gone)
      (hrole : v.roleOf? gone.tag = none) (hnext : next.bind Link.block = gone.below?) :
      Thinned v b { b with next := next }
  /-- The first block in the body of a loop goes. -/
  | goneInside {b gone : Block} {inputs : List (String × Link Block)}
      (hloop : v.roleOf? b.tag = some .loop) (hbody : b.statement? v.fields.body = some gone)
      (hrole : v.roleOf? gone.tag = none) (hothers : SameExcept v.fields.body b.inputs inputs)
      (hfirst : (getByName? v.fields.body inputs).bind Link.block = gone.below?) :
      Thinned v b { b with inputs := inputs }
  /-- A block goes that hangs somewhere on the next one. -/
  | withinNext {b c c' : Block} {link link' : Link Block} (hc : Thinned v c c')
      (hlink : Link.Exchanged c c' link link') (hnext : b.next = some link) :
      Thinned v b { b with next := some link' }
  /-- A block goes that hangs somewhere on what is plugged into an input. -/
  | withinInput {b c c' : Block} {name : String} {link link' : Link Block}
      {inputs : List (String × Link Block)} (hc : Thinned v c c')
      (hlink : Link.Exchanged c c' link link') (hinput : getByName? name b.inputs = some link)
      (hothers : SameExcept name b.inputs inputs) (hinput' : getByName? name inputs = some link') :
      Thinned v b { b with inputs := inputs }

variable {v : Vocabulary}

/-! ## What the compiler looks at -/

theorem compileBlock_eq (v : Vocabulary) (first : Option Block) :
    compileBlock v first = (first.map (compile v)).getD [] := by
  cases first <;> rfl

/-- A stack compiles to the instruction of its head, given those of the body, and then to what is
below. -/
theorem compile_eq_compileBlock (v : Vocabulary) (b : Block) :
    b.compile v =
      (compileWith v (compileBlock v (b.statement? v.fields.body)) b).toList ++
        compileBlock v b.below? := by
  rw [compileBlock_eq, compileBlock_eq, ← compile_eq]

/-- A stack compiles to the same as another if the instructions of the heads are alike, and the
stacks in their bodies and below them compile to the same. -/
theorem compile_congr {b b' : Block}
    (hop : ∀ body, compileWith v body b' = compileWith v body b)
    (hbody : compileBlock v (b'.statement? v.fields.body) =
      compileBlock v (b.statement? v.fields.body))
    (hbelow : compileBlock v b'.below? = compileBlock v b.below?) :
    b'.compile v = b.compile v := by
  rw [compile_eq_compileBlock, compile_eq_compileBlock, hop, hbody, hbelow]

/-- **A stack headed by a block without a role compiles to what is below.** -/
theorem compileBlock_of_roleOf?_eq_none {b : Block} (hrole : v.roleOf? b.tag = none) :
    compileBlock v (some b) = compileBlock v b.below? := by
  show b.compile v = _
  rw [compile_eq_compileBlock, compileWith, hrole]
  rfl

/-- The instruction of a block is that of another of the same type and id that holds the same
numbers. -/
theorem compileWith_congr {b b' : Block} (htag : b'.tag = b.tag) (hid : b'.id = b.id)
    (hnumber : ∀ name, b'.number? name = b.number? name) (body : List Op) :
    compileWith v body b' = compileWith v body b := by
  rw [compileWith, compileWith, htag, hid]
  simp only [Vocabulary.stepsBackOf, Vocabulary.stepsOf, Vocabulary.timesOf, Vocabulary.msOf,
    hnumber]

/-- The instruction of a loop depends on no number but its own. -/
theorem compileWith_congr_loop {b b' : Block} (htag : b'.tag = b.tag) (hid : b'.id = b.id)
    (hloop : v.roleOf? b.tag = some .loop)
    (hnumber : b'.number? v.fields.times = b.number? v.fields.times) (body : List Op) :
    compileWith v body b' = compileWith v body b := by
  rw [compileWith, compileWith, htag, hid, hloop]
  simp only [Option.map_some, Vocabulary.timesOf, hnumber]

/-- A number read from an input is that of the field read first in what hangs there. -/
theorem number?_congr_of_inputs {b : Block} {inputs : List (String × Link Block)} {name : String}
    (h : ((getByName? name inputs).bind Link.target?).map Block.fields =
      ((getByName? name b.inputs).bind Link.target?).map Block.fields) :
    { b with inputs := inputs }.number? name = b.number? name := by
  have hread : ∀ target : Option Block,
      (target.bind fun value => value.fields.findSome? fun field => field.2.asDouble?) =
        (target.map Block.fields).bind fun fields => fields.findSome? fun field =>
          field.2.asDouble? := by
    intro target
    cases target <;> rfl
  rw [number?, number?]
  simp only [hread, h]

/-! ## Exchanging what hangs on a link -/

/-- The stack on a link compiles to the same if the block exchanged does. -/
theorem compileBlock_of_exchanged {c c' : Block} {link link' : Link Block}
    (h : Link.Exchanged c c' link link') (hcompile : c'.compile v = c.compile v) :
    compileBlock v link'.block = compileBlock v link.block := by
  cases h with
  | block shadow => exact hcompile
  | shadow block => rfl

/-- The same fields are read from a link if the block exchanged has the same fields. -/
theorem fields_of_exchanged {c c' : Block} {link link' : Link Block}
    (h : Link.Exchanged c c' link link') (hfields : c'.fields = c.fields) :
    link'.target?.map Block.fields = link.target?.map Block.fields := by
  cases h with
  | block shadow => exact congrArg some hfields
  | shadow block =>
    cases block with
    | none => exact congrArg some hfields
    | some _ => rfl

/-! ## Thinning changes nothing that is seen -/

/-- What is seen of a block without looking at what hangs on it is not changed by thinning. -/
theorem Thinned.head_eq {b b' : Block} (h : Thinned v b b') :
    b'.tag = b.tag ∧ b'.x = b.x ∧ b'.y = b.y ∧ b'.fields = b.fields := by
  cases h <;> exact ⟨rfl, rfl, rfl, rfl⟩

/-- **A stack compiles to the same after thinning.** -/
theorem Thinned.compile_eq (hnames : v.fields.times ≠ v.fields.body) {b b' : Block}
    (h : Thinned v b b') : b'.compile v = b.compile v := by
  induction h with
  | @goneBelow b gone next hbelow hrole hnext =>
    refine compile_congr (fun _ => rfl) rfl ?_
    show compileBlock v (next.bind Link.block) = compileBlock v b.below?
    rw [hnext, hbelow, compileBlock_of_roleOf?_eq_none hrole]
  | @goneInside b gone inputs hloop hbody hrole hothers hfirst =>
    have htimes : { b with inputs := inputs }.number? v.fields.times = b.number? v.fields.times :=
      number?_congr_of_inputs (by rw [hothers _ hnames])
    refine compile_congr (compileWith_congr_loop rfl rfl hloop htimes) ?_ rfl
    show compileBlock v ((getByName? v.fields.body inputs).bind Link.block) =
      compileBlock v (b.statement? v.fields.body)
    rw [hfirst, hbody, compileBlock_of_roleOf?_eq_none hrole]
  | @withinNext b c c' link link' hc hlink hnext ih =>
    refine compile_congr (fun _ => rfl) rfl ?_
    show compileBlock v link'.block = compileBlock v b.below?
    rw [compileBlock_of_exchanged hlink ih, below?, hnext]
    rfl
  | @withinInput b c c' name link link' inputs hc hlink hinput hothers hinput' ih =>
    have hnumber : ∀ other, { b with inputs := inputs }.number? other = b.number? other := by
      intro other
      by_cases hname : other = name
      · refine number?_congr_of_inputs ?_
        rw [hname, hinput, hinput']
        exact fields_of_exchanged hlink hc.head_eq.2.2.2
      · exact number?_congr_of_inputs (by rw [hothers _ hname])
    refine compile_congr (compileWith_congr rfl rfl hnumber) ?_ rfl
    show compileBlock v ((getByName? v.fields.body inputs).bind Link.block) =
      compileBlock v (b.statement? v.fields.body)
    by_cases hname : v.fields.body = name
    · rw [statement?, hname, hinput, hinput']
      exact compileBlock_of_exchanged hlink ih
    · rw [statement?, hothers _ hname]

end Block

/-! ## Drawings -/

namespace Workspace

variable {v : Vocabulary}

/-- What the compiler sees of the head of a stack. -/
structure Sight where
  isStart : Bool
  y : Double
  x : Double
  ops : List Op

/-- The sight of a head. -/
def sight (v : Vocabulary) (b : Block) : Sight := ⟨v.isStart b, b.y, b.x, b.compile v⟩

/-- The order of the page on sights. -/
def Sight.notAfter (a b : Sight) : Bool :=
  a.y.rank < b.y.rank || (a.y.rank = b.y.rank && a.x.rank ≤ b.x.rank)

/-- Heads are put in order by what is seen of them. -/
theorem map_sight_inOrder (v : Vocabulary) (w : Workspace) :
    w.inOrder.map (sight v) = (w.heads.map (sight v)).mergeSort Sight.notAfter :=
  List.map_mergeSort fun _ _ _ _ => rfl

/-- **A drawing is compiled by what is seen of its heads.** -/
theorem compile_eq_of_sights {w w' : Workspace}
    (h : w'.heads.map (sight v) = w.heads.map (sight v)) : w'.compile v = w.compile v := by
  have horder : w'.inOrder.map (sight v) = w.inOrder.map (sight v) := by
    rw [map_sight_inOrder, map_sight_inOrder, h]
  have hfind : (w'.inOrder.find? v.isStart).map (sight v) =
      (w.inOrder.find? v.isStart).map (sight v) := by
    have hmap : ∀ heads : List Block, (heads.find? v.isStart).map (sight v) =
        (heads.map (sight v)).find? Sight.isStart := fun heads => by rw [List.find?_map]; rfl
    rw [hmap, hmap, horder]
  rw [compile, compile]
  cases hw : w.inOrder.find? v.isStart with
  | some head =>
    rw [hw, Option.map_some, Option.map_eq_some_iff] at hfind
    obtain ⟨head', hw', hsight⟩ := hfind
    rw [hw']
    exact congrArg (Program.mk ∘ Sight.ops) hsight
  | none =>
    rw [hw, Option.map_none, Option.map_eq_none_iff] at hfind
    rw [hfind]
    cases hheads : w.inOrder with
    | nil =>
      rw [hheads, List.map_nil, List.map_eq_nil_iff] at horder
      rw [horder]
    | cons head rest =>
      rw [hheads, List.map_cons, List.map_eq_cons_iff] at horder
      obtain ⟨head', rest', horder', hsight, -⟩ := horder
      rw [horder']
      exact congrArg (fun s => Program.mk (s.ops.filter fun op => !op.isStart)) hsight

/-- In one stack of a drawing one block without a role is taken out, which is not the head. -/
inductive Thinned (v : Vocabulary) : Workspace → Workspace → Prop
  | stack (version : Nat) (before : List Block) {b b' : Block} (after : List Block)
      (hb : Block.Thinned v b b') :
      Thinned v ⟨version, before ++ b :: after⟩ ⟨version, before ++ b' :: after⟩

theorem Thinned.compile_eq (hnames : v.fields.times ≠ v.fields.body) {w w' : Workspace}
    (h : Thinned v w w') : w'.compile v = w.compile v := by
  cases h with
  | @stack version before b b' after hb =>
    obtain ⟨htag, hx, hy, -⟩ := hb.head_eq
    have hsight : sight v b' = sight v b := by
      rw [sight, sight, hb.compile_eq hnames, hx, hy, Vocabulary.isStart, htag]
      rfl
    refine compile_eq_of_sights ?_
    rw [List.map_append, List.map_append, List.map_cons, List.map_cons, hsight]

/-- **Blocks without a role are transparent.**  Unless loops read their number and their body from
inputs of one name, a drawing compiles to the same program after any number of blocks without a
role have been taken out or put in, below other blocks or at the head of the bodies of loops, at
any depth, whatever these blocks hold. -/
theorem compile_eq_of_thinned (hnames : v.fields.times ≠ v.fields.body) {w w' : Workspace}
    (h : Relation.EqvGen (Thinned v) w w') : w'.compile v = w.compile v := by
  induction h with
  | rel w w' h => exact h.compile_eq hnames
  | refl w => rfl
  | symm w w' _ ih => exact ih.symm
  | trans w w' w'' _ _ ih ih' => exact ih'.trans ih

/-- A comment above a stack, with a stack of its own plugged in that is never compiled. -/
def noted (b : Block) : Block :=
  ⟨"text_comment", "c", .zero, .zero, [("TEXT", .text "2")],
    [("DO", ⟨some (.bare "maze_turn_left" "t"), none⟩)], some ⟨some b, none⟩⟩

/-- A loop over a stack that reads its number from a shadow. -/
def tripled (b : Block) : Block :=
  ⟨"maze_repeat", "r", .zero, .zero, [],
    [("DO", ⟨some b, none⟩),
      ("TIMES", ⟨none, some { Block.bare "math_number" "n" with fields := [("NUM", .ofInt 3)] }⟩)],
    none⟩

/-- A drawing of one stack, headed by a start. -/
def begun (b : Block) : Workspace :=
  ⟨0, [{ Block.bare "maze_start" "s" with next := some ⟨some b, none⟩ }]⟩

/-- A move, with no number given. -/
def move : Block := .bare "maze_move_forward" "m"

theorem noted_compiles_as_plain :
    Vocabulary.maze.fields.times ≠ Vocabulary.maze.fields.body ∧
      (begun (tripled move)).compile .maze =
        (begun (noted (tripled (noted move)))).compile .maze := by
  have hnames : Vocabulary.maze.fields.times ≠ Vocabulary.maze.fields.body := by decide
  have hnoted : Vocabulary.maze.roleOf? "text_comment" = none := by decide +kernel
  have hloop : Vocabulary.maze.roleOf? "maze_repeat" = some .loop := by decide +kernel
  have houter : Thinned .maze (begun (noted (tripled (noted move)))) (begun (tripled (noted move))) :=
    .stack 0 [] [] (.goneBelow rfl hnoted rfl)
  have hbody : Block.Thinned .maze (tripled (noted move)) (tripled move) :=
    .goneInside hloop rfl hnoted (sameExcept_cons _ _ _ _) rfl
  have hinner : Thinned .maze (begun (tripled (noted move))) (begun (tripled move)) :=
    .stack 0 [] [] (.withinNext hbody (.block none) rfl)
  exact ⟨hnames, compile_eq_of_thinned hnames (.trans _ _ _ (.rel _ _ houter) (.rel _ _ hinner))⟩

end Workspace

end BlockRobot
