import BlockRobot.Grid
import BlockRobot.Proofs.Run.Unrolling
import Mathlib.Algebra.BigOperators.Group.List.Basic
import Mathlib.Data.Int.ModEq
import Mathlib.Tactic.Ring

/-!
# Poses

Where a robot stands and where it looks is its *pose*.  What an instruction does to a pose can be
said without the pose.  "Two cells ahead, then to the right" means the same to every robot, if each
counts from its own cell and calls north what is ahead of it.  So an instruction is known from what
it does to the robot at the origin that looks north, and that is a pose again, its *motion*.

Poses are therefore multiplied: `p * q` is the pose that the robot in `p` calls `q`.  This is a
monoid, in which a list of instructions has for its motion the product of theirs (`Op.motionAll`),
and a loop a power.

* `Pose.cell` and `Facing.heading` translate what one robot says of cells and headings, and
  `Cell.steps` are the cells on the way of a move.
* `Pose.pow_four`: **a motion made four times is none if it ends looking elsewhere than north.**
* `Op.quarters_motionAll`: how it ends looking is known from the quarter turns, counted to the
  right, up to whole turns.

## Why four

The motions that end looking north are translations, and except for the one that moves nothing no
power of them comes back.  All others turn the plane about some point, by one, two or three
quarters, and four of them by a multiple of four.  The point need not be a cell, which is why the
proof adds up displacements instead: each turned by the quarters made before it, the four cancel.
-/

namespace BlockRobot

/-! ## The cells along a line -/

namespace Cell

/-- The cell a number of steps ahead, or behind if `back`. -/
def steps (c : Cell) (f : Facing) (back : Bool) : Nat → Cell
  | 0 => c
  | n + 1 => (c.step f back).steps f back n

@[simp] theorem steps_zero (c : Cell) (f : Facing) (back : Bool) : c.steps f back 0 = c := rfl

theorem steps_succ (c : Cell) (f : Facing) (back : Bool) (n : Nat) :
    c.steps f back (n + 1) = (c.step f back).steps f back n := rfl

/-- How a step counts: ahead once, behind minus once. -/
def stride (back : Bool) : Int := if back then -1 else 1

theorem step_eq (c : Cell) (f : Facing) (back : Bool) :
    c.step f back = ⟨c.x + stride back * f.dx, c.y + stride back * f.dy⟩ := by
  cases back with
  | false => simp [stride]
  | true => simp [stride, Int.sub_eq_add_neg]

theorem steps_eq (c : Cell) (f : Facing) (back : Bool) (n : Nat) :
    c.steps f back n = ⟨c.x + n * stride back * f.dx, c.y + n * stride back * f.dy⟩ := by
  induction n generalizing c with
  | zero => simp
  | succ n ih =>
    rw [steps_succ, ih, step_eq, Cell.mk.injEq]
    push_cast
    constructor <;> ring

/-- A number of steps is its size, counted ahead or behind. -/
theorem natAbs_mul_stride (n : Int) : n.natAbs * stride (n < 0) = n := by
  by_cases hn : n < 0
  · rw [decide_eq_true hn, stride, if_pos rfl]
    omega
  · rw [decide_eq_false hn, stride, if_neg Bool.false_ne_true]
    omega

/-- Behind is ahead by a negative number of steps. -/
theorem steps_natAbs (c : Cell) (f : Facing) (n : Int) :
    c.steps f (n < 0) n.natAbs = ⟨c.x + n * f.dx, c.y + n * f.dy⟩ := by
  rw [steps_eq, natAbs_mul_stride]

end Cell

/-! ## Headings -/

namespace Facing

/-- The heading that is called `g` by one who looks `f` and calls that north. -/
def heading (f : Facing) : Facing → Facing
  | north => f
  | east => f.clockwise
  | south => f.clockwise.clockwise
  | west => f.anticlockwise

theorem heading_turned_north (f : Facing) (side : Side) :
    f.heading (north.turned side) = f.turned side := by
  cases f <;> cases side <;> rfl

theorem heading_heading (f g k : Facing) : (f.heading g).heading k = f.heading (g.heading k) := by
  cases f <;> cases g <;> cases k <;> rfl

@[simp] theorem north_heading (g : Facing) : north.heading g = g := by cases g <;> rfl

@[simp] theorem heading_north (f : Facing) : f.heading north = f := rfl

/-- The quarter turns to the right from north to a facing. -/
def quarters : Facing → Int
  | north => 0
  | east => 1
  | south => 2
  | west => 3

theorem quarters_heading (f g : Facing) :
    (f.heading g).quarters ≡ f.quarters + g.quarters [ZMOD 4] := by
  cases f <;> cases g <;> decide

theorem eq_north_iff {f : Facing} : f = north ↔ 4 ∣ f.quarters := by
  cases f <;> decide

end Facing

/-! ## Poses -/

/-- Where a robot stands and where it looks. -/
@[ext] structure Pose where
  position : Cell
  facing : Facing

namespace Pose

/-- The cell that the robot calls `c`, counting from its own cell and calling north what is
ahead. -/
def cell (p : Pose) (c : Cell) : Cell :=
  ⟨p.position.x + c.x * p.facing.dy + c.y * p.facing.dx,
    p.position.y + c.y * p.facing.dy - c.x * p.facing.dx⟩

/-- The robot at the origin that looks north. -/
instance : One Pose := ⟨⟨0, 0⟩, .north⟩

/-- The pose that the robot in `p` calls `q`. -/
instance : Mul Pose := ⟨fun p q => ⟨p.cell q.position, p.facing.heading q.facing⟩⟩

@[simp] theorem position_one : (1 : Pose).position = ⟨0, 0⟩ := rfl
@[simp] theorem facing_one : (1 : Pose).facing = .north := rfl
@[simp] theorem position_mul (p q : Pose) : (p * q).position = p.cell q.position := rfl
@[simp] theorem facing_mul (p q : Pose) : (p * q).facing = p.facing.heading q.facing := rfl

theorem cell_origin (p : Pose) : p.cell ⟨0, 0⟩ = p.position := by
  simp [cell]

theorem one_cell (c : Cell) : (1 : Pose).cell c = c := by
  simp [cell, Facing.dx, Facing.dy]

/-- What is ahead is called north. -/
theorem cell_ahead (p : Pose) (n : Int) :
    p.cell ⟨0, n⟩ = ⟨p.position.x + n * p.facing.dx, p.position.y + n * p.facing.dy⟩ := by
  simp [cell]

/-- What one robot says another says of a cell. -/
theorem mul_cell (p q : Pose) (c : Cell) : (p * q).cell c = p.cell (q.cell c) := by
  obtain ⟨a, f⟩ := p
  obtain ⟨b, g⟩ := q
  cases f <;> cases g <;>
    simp only [cell, position_mul, facing_mul, Facing.heading, Facing.clockwise,
      Facing.anticlockwise, Facing.dx, Facing.dy, Cell.mk.injEq] <;>
    omega

instance : Monoid Pose where
  mul_assoc p q r := Pose.ext (mul_cell p q r.position) (Facing.heading_heading _ _ _)
  one_mul p := Pose.ext (one_cell p.position) (Facing.north_heading p.facing)
  mul_one p := Pose.ext (cell_origin p) (Facing.heading_north p.facing)

/-- **A motion made four times is none**, if it ends looking elsewhere than north. -/
theorem pow_four {q : Pose} (hq : q.facing ≠ .north) : q ^ 4 = 1 := by
  obtain ⟨⟨x, y⟩, f⟩ := q
  rw [pow_succ, pow_succ, pow_succ, pow_one, Pose.ext_iff]
  cases f with
  | north => exact absurd rfl hq
  | _ =>
    -- the sum of the four displacements, each turned by the quarters made before it
    simp only [position_mul, facing_mul, position_one, facing_one, cell, Facing.heading,
      Facing.clockwise, Facing.anticlockwise, Facing.dx, Facing.dy, Cell.mk.injEq, and_true]
    omega

end Pose

/-! ## The motion of instructions -/

/-- A quarter turn, counted to the right. -/
def Side.quarterTurn : Side → Int
  | left => -1
  | right => 1

theorem Side.quarters_turned_north (side : Side) :
    (Facing.north.turned side).quarters ≡ side.quarterTurn [ZMOD 4] := by
  cases side <;> decide

namespace Op

/-- What an instruction does to the robot at the origin that looks north.  A loop is only
announced: it moves by what it unrolls to. -/
def motion : Op → Pose
  | move steps _ => ⟨⟨0, steps⟩, .north⟩
  | turn side _ => ⟨⟨0, 0⟩, Facing.north.turned side⟩
  | _ => 1

/-- What some instructions do to it, one after the other. -/
def motionAll (ops : List Op) : Pose := (ops.map motion).prod

/-- The quarter turns that an instruction makes, counted to the right. -/
def quarterTurns : Op → Int
  | turn side _ => side.quarterTurn
  | _ => 0

/-- The net number of quarter turns, rights minus lefts, on one walk of some instructions, with
loops unrolled at every depth. -/
def netTurns (ops : List Op) : Int := ((unrolledAll ops).map quarterTurns).sum

/-- A robot in any pose makes a move by standing elsewhere on the line it looks along. -/
theorem mul_motion_move (p : Pose) (steps : Int) (id : String) :
    p * (move steps id).motion =
      ⟨p.position.steps p.facing (steps < 0) steps.natAbs, p.facing⟩ :=
  Pose.ext ((p.cell_ahead steps).trans (Cell.steps_natAbs _ _ steps).symm) rfl

/-- A robot in any pose makes a turn where it stands. -/
theorem mul_motion_turn (p : Pose) (side : Side) (id : String) :
    p * (turn side id).motion = ⟨p.position, p.facing.turned side⟩ :=
  Pose.ext p.cell_origin (p.facing.heading_turned_north side)

theorem motionAll_cons (op : Op) (ops : List Op) :
    motionAll (op :: ops) = op.motion * motionAll ops := List.prod_cons

theorem motionAll_append (as bs : List Op) :
    motionAll (as ++ bs) = motionAll as * motionAll bs := by
  rw [motionAll, List.map_append, List.prod_append, motionAll, motionAll]

theorem motionAll_flatten_replicate (n : Nat) (ops : List Op) :
    motionAll (List.replicate n ops).flatten = motionAll ops ^ n := by
  induction n with
  | zero => rfl
  | succ n ih => rw [List.replicate_succ, List.flatten_cons, motionAll_append, ih, pow_succ']

/-- **A loop moves by a power of its body.** -/
theorem motionAll_unrolled_loop (times : Double) (body : List Op) (id : String) :
    motionAll (unrolled (.loop times body id)) =
      motionAll (unrolledAll body) ^ times.repetitions := by
  rw [unrolled, motionAll_cons, motionAll_flatten_replicate]
  exact one_mul _

theorem quarters_motion (op : Op) : op.motion.facing.quarters ≡ op.quarterTurns [ZMOD 4] := by
  cases op with
  | turn side id => exact side.quarters_turned_north
  | _ => exact Int.ModEq.rfl

/-- **Where a motion ends looking is known from its quarter turns**, up to whole turns. -/
theorem quarters_motionAll (ops : List Op) :
    (motionAll ops).facing.quarters ≡ (ops.map quarterTurns).sum [ZMOD 4] := by
  induction ops with
  | nil => exact Int.ModEq.rfl
  | cons op ops ih =>
    rw [motionAll_cons, Pose.facing_mul, List.map_cons, List.sum_cons]
    exact (Facing.quarters_heading _ _).trans (op.quarters_motion.add ih)

/-- **Turning loops come home.**  If one walk of the body turns, and not by whole turns, then four
walks of it move nothing, and so does every multiple of four. -/
theorem motionAll_pow_of_netTurns {body : List Op} (hturn : ¬ 4 ∣ netTurns body) {n : Nat}
    (hn : 4 ∣ n) : motionAll (unrolledAll body) ^ n = 1 := by
  have hfacing : (motionAll (unrolledAll body)).facing ≠ .north := by
    rw [Ne, Facing.eq_north_iff]
    exact fun h => hturn ((quarters_motionAll _).dvd_iff.1 h)
  obtain ⟨k, rfl⟩ := hn
  rw [pow_mul, Pose.pow_four hfacing, one_pow]

end Op

end BlockRobot
