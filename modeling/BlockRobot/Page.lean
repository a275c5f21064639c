import BlockRobot.Compilation

/-!
# What the editor page calls

The page passes texts and gets texts.  Nothing here fails: a text that cannot be
read becomes a diagnostic in the answer.
-/

namespace BlockRobot.Page

/-- The version of the compiler. -/
def version : String := "0.1.0"

/-- The vocabulary the page asks for.  A blank text asks for the one of the maze. -/
def vocabularyOf (text : String) : Except ReadError Vocabulary :=
  if text.toList.all isBlank then .ok .maze else Vocabulary.ofText text

/-- Compiles a drawing with a vocabulary. -/
def compilation (workspace vocabulary : String) : Compilation :=
  match vocabularyOf vocabulary with
  | .ok v => .ofText workspace v
  | .error e => .unreadable ("invalid compile options: " ++ e.message)

/-- The answer to a drawing and a vocabulary. -/
def compile (workspace vocabulary : String) : String := (compilation workspace vocabulary).toText

/-- The diagnostics of a program given as a text. -/
def diagnostics (program : String) : List Diagnostic :=
  match Program.ofText program with
  | .ok p => p.diagnostics
  | .error e => [.ofCode Diagnostic.malformedWorkspace ("invalid program: " ++ e.message)]

/-- The answer to a program. -/
def validate (program : String) : String :=
  (Json.array ((diagnostics program).map Diagnostic.toJson)).toText

end BlockRobot.Page
