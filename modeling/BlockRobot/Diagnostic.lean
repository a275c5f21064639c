import BlockRobot.Json.Record

/-!
# Diagnostics

What the editor is told when a program cannot be run: a code, the category the code
belongs to, and a message for the learner.  Codes from 100 to 199 speak of the
drawing, all others of the structure of the program.
-/

namespace BlockRobot

/-- What a diagnostic speaks of. -/
inductive Category where
  | drawing
  | program
deriving DecidableEq

namespace Category

/-- The name of a category. -/
def name : Category → String
  | drawing => "graph"
  | program => "structure"

/-- The category of a code. -/
def ofCode (code : Nat) : Category := if 100 ≤ code ∧ code ≤ 199 then drawing else program

/-- The categories and their names. -/
def known : List (String × Category) := [("graph", drawing), ("structure", program)]

end Category

/-- A message for the editor. -/
structure Diagnostic where
  code : Nat
  category : Category
  message : String
deriving DecidableEq

namespace Diagnostic

/-- The diagnostic of a code, in the category the code belongs to. -/
def ofCode (code : Nat) (message : String) : Diagnostic := ⟨code, .ofCode code, message⟩

/-- A code as it is shown. -/
def codeText (code : Nat) : String := "E" ++ toString code

/-- A diagnostic in one line. -/
def display (d : Diagnostic) : String :=
  codeText d.code ++ " [" ++ d.category.name ++ "] " ++ d.message

/-! ## Codes -/

/-- The drawing, its vocabulary or a program could not be read. -/
def malformedWorkspace : Nat := 100

/-- The program is empty. -/
def emptyProgram : Nat := 600

/-- The program does not begin with a start. -/
def missingStart : Nat := 601

/-- The program has too many instructions. -/
def programTooLong : Nat := 607

/-! ## Text -/

/-- A diagnostic as a value. -/
def toJson (d : Diagnostic) : Json :=
  .object [("code", .ofInt d.code), ("category", .text d.category.name), ("message", .text d.message)]

/-- The text of a diagnostic. -/
def toText (d : Diagnostic) : String := d.toJson.toText

/-- The record of a diagnostic. -/
def record : Record Diagnostic where
  name := "Diagnostic"
  fields := [
    .of "code" .always .natural16 fun d code => { d with code },
    .of "category" .always (.choice Category.known) fun d category => { d with category },
    .of "message" .always .text fun d message => { d with message }]
  blank := ⟨0, .program, ""⟩

/-- Reads a diagnostic from a text. -/
def ofText (text : String) : Except ReadError Diagnostic := record.read.run text

end Diagnostic

end BlockRobot
