import BlockRobot.Json.Record
import BlockRobot.Text.Blank

/-!
# Drawings of blocks

A workspace is what the learner has drawn: stacks of blocks, each at a place of the
canvas.  A block holds fields (values typed into it), inputs (blocks plugged into
it) and the link to the block below it.  A link may hold a block and a shadow, the
pale block that the editor shows where none is plugged in.

Fields and inputs are lists sorted by name, without repetitions; names are compared
as texts, character by character.

## Reading a number

`Block.number?` looks into the field of that name, and if no number is there, into
the block plugged into the input of that name, or into its shadow, where the first
field that holds a number counts.  A number is a finite double, or a text that
spells one with blanks around it.

## The order of stacks

Stacks are read as a page is: from top to bottom, and from left to right at one
height.  Places are compared by `Double.rank`, which orders all doubles, and stacks
at one place keep the order in which they were drawn.
-/

namespace BlockRobot

/-- What is plugged into an input, or hangs below a block. -/
structure Link (β : Type) where
  block : Option β
  shadow : Option β

/-- A block, with everything plugged into it and everything below it. -/
structure Block where
  /-- The type of the block, which a vocabulary gives a role. -/
  tag : String
  id : String
  x : Double
  y : Double
  fields : List (String × Json)
  inputs : List (String × Link Block)
  next : Option (Link Block)

instance {β : Type} : Inhabited (Link β) := ⟨⟨none, none⟩⟩

namespace Link

variable {β : Type}

/-- What the link holds: the block, or else its shadow. -/
def target? (l : Link β) : Option β := l.block.or l.shadow

end Link

/-- The finite double a field value stands for. -/
def Json.asDouble? : Json → Option Double
  | .number n => if n.toDouble.isFinite then some n.toDouble else none
  | .text s => Double.ofText? (trimBlanks s.toList)
  | _ => none

namespace Block

/-- A block of a type with an id and nothing else. -/
def bare (tag id : String) : Block := ⟨tag, id, .zero, .zero, [], [], none⟩

instance : Inhabited Block := ⟨bare "" ""⟩

/-- The block below. -/
def below? (b : Block) : Option Block := b.next.bind Link.block

/-- The block in an input, shadows not counted. -/
def statement? (b : Block) (name : String) : Option Block :=
  (getByName? name b.inputs).bind Link.block

/-- The number under a name: in a field, or in what is plugged into an input. -/
def number? (b : Block) (name : String) : Option Double :=
  match (getByName? name b.fields).bind Json.asDouble? with
  | some d => some d
  | none =>
    ((getByName? name b.inputs).bind Link.target?).bind fun value =>
      value.fields.findSome? fun field => field.2.asDouble?

mutual

/-- A block and all blocks below it. -/
def chain : Block → List Block
  | b@⟨_, _, _, _, _, _, next⟩ => b :: chainBelow next

/-- The blocks of the chain that hangs on a link. -/
def chainBelow : Option (Link Block) → List Block
  | some ⟨some b, _⟩ => chain b
  | some ⟨none, _⟩ => []
  | none => []

end

/-- A chain is a block and the chain of the block below. -/
theorem chain_eq (b : Block) : b.chain = b :: (b.below?.map chain).getD [] := by
  obtain ⟨tag, id, x, y, fields, inputs, next⟩ := b
  match next with
  | none => rfl
  | some ⟨none, _⟩ => rfl
  | some ⟨some _, _⟩ => rfl

end Block

/-- What is drawn on a canvas. -/
structure Workspace where
  languageVersion : Nat
  /-- The head of each stack, in the order of the drawing. -/
  heads : List Block

namespace Workspace

instance : Inhabited Workspace := ⟨⟨0, []⟩⟩

/-- Whether a block stands before another on the page, or at the same place. -/
def notAfter (a b : Block) : Bool :=
  a.y.rank < b.y.rank || (a.y.rank = b.y.rank && a.x.rank ≤ b.x.rank)

/-- The heads of the stacks in the order of the page. -/
def inOrder (w : Workspace) : List Block := w.heads.mergeSort notAfter

end Workspace

end BlockRobot
