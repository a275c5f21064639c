import BlockRobot.Double

/-!
# Programs

A program is a list of instructions, of which one kind, the loop, holds a list of
its own.  Every instruction carries the id of the editor block it stands for, so
that the block can be lit up while it runs.

Counting instructions (`Op.count`) counts the loop and what stands in it, each once:
how often a loop runs has no part in the size of a program.
-/

namespace BlockRobot

/-- The two ways to turn. -/
inductive Side where
  | left
  | right
deriving DecidableEq

namespace Side

/-- The other way to turn. -/
def other : Side → Side
  | left => right
  | right => left

/-- The name of a side. -/
def name : Side → String
  | left => "left"
  | right => "right"

end Side

/-- One instruction. -/
inductive Op where
  /-- Where a program begins. -/
  | start (id : String)
  /-- Walk `steps` cells ahead, backwards if negative. -/
  | move (steps : Int) (id : String)
  /-- Make a quarter turn. -/
  | turn (side : Side) (id : String)
  /-- Run `body` as often as `times` says, rounded down. -/
  | loop (times : Double) (body : List Op) (id : String)
  /-- Pause for `ms` milliseconds. -/
  | wait (ms : Double) (id : String)

namespace Op

instance : Inhabited Op := ⟨start ""⟩

/-- The editor block an instruction stands for. -/
def id : Op → String
  | start id => id
  | move _ id => id
  | turn _ id => id
  | loop _ _ id => id
  | wait _ id => id

@[simp] theorem id_start (id : String) : (start id).id = id := rfl
@[simp] theorem id_move (steps : Int) (id : String) : (move steps id).id = id := rfl
@[simp] theorem id_turn (side : Side) (id : String) : (turn side id).id = id := rfl
@[simp] theorem id_loop (times : Double) (body : List Op) (id : String) :
    (loop times body id).id = id := rfl
@[simp] theorem id_wait (ms : Double) (id : String) : (wait ms id).id = id := rfl

/-- Whether an instruction is a start. -/
def isStart : Op → Bool
  | start _ => true
  | _ => false

/-- The name of the kind of an instruction. -/
def kindName : Op → String
  | start _ => "start"
  | move _ _ => "move"
  | turn _ _ => "turn"
  | loop _ _ _ => "repeat"
  | wait _ _ => "wait"

mutual

/-- The number of instructions in an instruction, itself included. -/
def count : Op → Nat
  | start _ => 1
  | move _ _ => 1
  | turn _ _ => 1
  | loop _ body _ => 1 + countAll body
  | wait _ _ => 1

/-- The number of instructions in a list, those in loops included. -/
def countAll : List Op → Nat
  | [] => 0
  | op :: ops => count op + countAll ops

end

@[simp] theorem countAll_nil : countAll [] = 0 := rfl

@[simp] theorem countAll_cons (op : Op) (ops : List Op) :
    countAll (op :: ops) = op.count + countAll ops := rfl

theorem countAll_append (as bs : List Op) : countAll (as ++ bs) = countAll as + countAll bs := by
  induction as with
  | nil => simp
  | cons a as ih => simp [ih, Nat.add_assoc]

end Op

/-- A program: the instructions of one stack. -/
structure Program where
  ops : List Op

namespace Program

instance : Inhabited Program := ⟨⟨[]⟩⟩

/-- Whether there is nothing in a program. -/
def isEmpty (p : Program) : Bool := p.ops.isEmpty

/-- Whether the first instruction is a start. -/
def beginsWithStart (p : Program) : Bool := p.ops.head?.any Op.isStart

theorem beginsWithStart_iff (p : Program) :
    p.beginsWithStart = true ↔ ∃ id ops, p.ops = .start id :: ops := by
  obtain ⟨ops⟩ := p
  cases ops with
  | nil => simp [beginsWithStart]
  | cons op ops => cases op <;> simp [beginsWithStart, Op.isStart]

/-- The number of instructions in a program, those in loops included. -/
def count (p : Program) : Nat := Op.countAll p.ops

end Program

end BlockRobot
