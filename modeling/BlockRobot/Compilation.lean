import BlockRobot.Block.Text
import BlockRobot.Program.Text
import BlockRobot.Validation
import BlockRobot.Vocabulary

/-!
# From drawings to programs

The program of a drawing is its first stack, in the order of the page, that is
headed by a start.  All other stacks are ignored.  If no stack is headed by a start,
the first stack is taken without the starts on its own chain, so that the program
cannot begin with one and is refused with a reason that fits the drawing.

A stack is compiled block by block along its chain.  A block without a role adds
nothing and is passed over with everything plugged into it; the blocks below it
count as before.  What a block adds depends on nothing but the block: the role of
its type, its own numbers, and the stack in its body.
-/

namespace BlockRobot

namespace Vocabulary

/-- The number of cells a move block asks for: one, if it holds no number. -/
def stepsOf (v : Vocabulary) (b : Block) : Int :=
  match b.number? v.fields.steps with
  | some d => d.truncated
  | none => 1

/-- The same number of cells the other way.  The least integer has no negative, and
the largest is taken for it. -/
def stepsBackOf (v : Vocabulary) (b : Block) : Int :=
  min (-(v.stepsOf b)) Double.largestInteger

/-- How often a loop block runs: not at all, if it holds no number. -/
def timesOf (v : Vocabulary) (b : Block) : Double := (b.number? v.fields.times).getD .zero

/-- How long a wait block lasts: no time, if it holds no number. -/
def msOf (v : Vocabulary) (b : Block) : Double := (b.number? v.fields.ms).getD .zero

/-- Whether a block is a start. -/
def isStart (v : Vocabulary) (b : Block) : Bool := v.roleOf? b.tag = some .start

end Vocabulary

namespace Block

/-- The instruction of a block, given the instructions of the stack in its body. -/
def compileWith (v : Vocabulary) (body : List Op) (b : Block) : Option Op :=
  (v.roleOf? b.tag).map fun role =>
    match role with
    | .start => .start b.id
    | .move => .move (v.stepsOf b) b.id
    | .back => .move (v.stepsBackOf b) b.id
    | .turnLeft => .turn .left b.id
    | .turnRight => .turn .right b.id
    | .loop => .loop (v.timesOf b) body b.id
    | .wait => .wait (v.msOf b) b.id

mutual

/-- The instructions of the stack headed by a block. -/
def compile (v : Vocabulary) : Block → List Op
  | b@⟨_, _, _, _, _, inputs, next⟩ =>
    (compileWith v (compileBody v inputs) b).toList ++ compileBelow v next

/-- The instructions of the stack that hangs on a link. -/
def compileBelow (v : Vocabulary) : Option (Link Block) → List Op
  | some ⟨some b, _⟩ => compile v b
  | some ⟨none, _⟩ => []
  | none => []

/-- The instructions of the stack in the input for the body. -/
def compileBody (v : Vocabulary) : List (String × Link Block) → List Op
  | [] => []
  | (name, ⟨block, _⟩) :: inputs =>
    if name = v.fields.body then compileBlock v block else compileBody v inputs

/-- The instructions of the stack headed by a block that may be absent. -/
def compileBlock (v : Vocabulary) : Option Block → List Op
  | some b => compile v b
  | none => []

end

/-- What a stack headed by a block means: the instruction of the block, and then the
stack below. -/
theorem compile_eq (v : Vocabulary) (b : Block) :
    b.compile v =
      (compileWith v (((b.statement? v.fields.body).map (compile v)).getD []) b).toList ++
        (b.below?.map (compile v)).getD [] := by
  have hbody : ∀ inputs : List (String × Link Block),
      compileBody v inputs =
        (((getByName? v.fields.body inputs).bind Link.block).map (compile v)).getD [] := by
    intro inputs
    induction inputs with
    | nil => rfl
    | cons entry inputs ih =>
      obtain ⟨name, block, shadow⟩ := entry
      by_cases h : name = v.fields.body
      · cases block <;> simp [compileBody, compileBlock, getByName?, h]
      · simp only [compileBody, h, if_false, ih, getByName?, List.find?_cons, decide_false]
  obtain ⟨tag, id, x, y, fields, inputs, next⟩ := b
  simp only [compile, hbody, statement?, below?]
  rcases next with _ | ⟨_ | _, _⟩ <;> rfl

end Block

/-- The program of a drawing. -/
def Workspace.compile (w : Workspace) (v : Vocabulary) : Program :=
  match w.inOrder.find? v.isStart with
  | some head => ⟨head.compile v⟩
  | none =>
    match w.inOrder with
    | [] => ⟨[]⟩
    | head :: _ => ⟨(head.compile v).filter fun op => !op.isStart⟩

/-! ## The outcome of a compilation -/

/-- What the editor gets for a drawing. -/
structure Compilation where
  /-- Whether the program may run. -/
  success : Bool
  /-- The program, if the drawing could be read. -/
  program : Option Program
  errors : List Diagnostic

namespace Compilation

/-- The outcome for a drawing that could be read. -/
def ofWorkspace (w : Workspace) (v : Vocabulary) : Compilation :=
  let p := w.compile v
  ⟨p.diagnostics.isEmpty, some p, p.diagnostics⟩

/-- A compilation succeeds exactly if its program may run. -/
theorem success_ofWorkspace (w : Workspace) (v : Vocabulary) :
    (ofWorkspace w v).success = true ↔ (w.compile v).Runnable := by
  show (w.compile v).diagnostics.isEmpty = true ↔ (w.compile v).ruleBroken? = none
  rw [Program.diagnostics]
  cases (w.compile v).ruleBroken? with
  | none => exact iff_of_true rfl rfl
  | some r => exact iff_of_false Bool.false_ne_true nofun

/-- The outcome when a text could not be read. -/
def unreadable (message : String) : Compilation :=
  ⟨false, none, [.ofCode Diagnostic.malformedWorkspace message]⟩

/-- The outcome for the text of a drawing. -/
def ofText (workspace : String) (v : Vocabulary) : Compilation :=
  match Workspace.ofText workspace with
  | .ok w => ofWorkspace w v
  | .error e => unreadable (Workspace.malformedMessage e)

/-- An outcome as a value. -/
def toJson (c : Compilation) : Json :=
  .object [("success", .bool c.success), ("program", (c.program.map Program.toJson).getD .null),
    ("errors", .array (c.errors.map Diagnostic.toJson))]

/-- The text of an outcome. -/
def toText (c : Compilation) : String := c.toJson.toText

/-- The record of an outcome. -/
def record : Record Compilation where
  name := "CompileResult"
  fields := [
    .of "success" .always .bool fun c success => { c with success },
    .of "program" .inArrays (.option Program.record.read) fun c program => { c with program },
    .of "errors" .always (.list Diagnostic.record.read) fun c errors => { c with errors }]
  blank := ⟨false, none, []⟩

/-- Reads an outcome from a text. -/
def read (text : String) : Except ReadError Compilation := record.read.run text

end Compilation

end BlockRobot
